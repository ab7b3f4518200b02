import DkimLite.Text.Joined
import DkimLite.Header
import DkimLite.Mailbox

/-!
# A verifier, as RFC 6376 describes it

Written from sections 3.2 (tag lists), 3.4.2 (relaxed header canonicalization), 3.5 and 3.7
(the hash input) and 5.4.2 (which instance of a field is signed), not from the signer.

`verifierInput` is what a verifier hashes: the fields named in h=, each the bottom-most
instance not yet used, then the DKIM-Signature field with the value of b= deleted and without
its CRLF. The canonicalization is a parameter, `rfcRelaxedField` being the literal one.
-/

namespace DkimLite.Rfc
open Rust Text

def EQUALS : UInt8 := 61
def UNDERSCORE : UInt8 := 95

/-! ## Tag lists -/

abbrev Tag := Bytes × Bytes

/-- Folding white space removed at both ends. -/
def stripFws (bs : Bytes) : Bytes := (bs.dropWhile isLwsp).rdropWhile isLwsp

/-- `tag-name = ALPHA *ALNUMPUNC` -/
def tagNameOk : Bytes → Bool
  | [] => false
  | b :: r => (isAsciiUpper b || isAsciiLower b) && r.all fun c => isAsciiAlphanumeric c || c == UNDERSCORE

/-- `VALCHAR`: visible ASCII but the semicolon. -/
def isValchar (b : UInt8) : Bool := 33 ≤ b && b ≤ 126 && b != SEMICOLON

def parseTag (part : Bytes) : Option Tag :=
  match part.dropWhile (· != EQUALS) with
  | [] => none
  | _ :: value =>
    let name := stripFws (part.takeWhile (· != EQUALS))
    let value := stripFws value
    if tagNameOk name && value.all (fun b => isValchar b || isLwsp b) then some (name, value) else none

def parseParts : List Bytes → Option (List Tag)
  | [] => some []
  | part :: parts =>
    -- nothing but white space may follow a final semicolon
    if parts.isEmpty && (stripFws part).isEmpty then some []
    else do
      let tag ← parseTag part
      let tags ← parseParts parts
      return tag :: tags

/-- A tag list; no name may occur twice in it. -/
def parseTags (list : Bytes) : Option (List Tag) := do
  let tags ← parseParts (list.splitOn SEMICOLON)
  if tags ≠ [] ∧ (tags.map Prod.fst).Nodup then some tags else none

/-- One part with the value deleted if its tag is b=. -/
def blankB (part : Bytes) : Bytes :=
  if stripFws (part.takeWhile (· != EQUALS)) = [98] then
    part.takeWhile (· != EQUALS) ++ (part.dropWhile (· != EQUALS)).take 1
  else part

/-- A field value with the value of its b= tag deleted. -/
def deleteB (value : Bytes) : Bytes := [SEMICOLON].intercalate ((value.splitOn SEMICOLON).map blankB)

/-! ## Canonicalization -/

/-- Unfold, make every run of white space one space, strip both ends. -/
def rfcRelaxedValue (value : Bytes) : Bytes :=
  ((collapse isWsp SP (removeFolds value)).dropWhile isWsp).rdropWhile isWsp

def rfcRelaxedField (name value : Bytes) : Bytes := lower name ++ COLON :: rfcRelaxedValue value

/-! ## Selection and hash input -/

/-- The last element with the property, and the others. -/
def takeLast {α : Type} (p : α → Bool) : List α → Option (α × List α)
  | [] => none
  | a :: l =>
    match takeLast p l with
    | some (b, r) => some (b, a :: r)
    | none => if p a then some (a, l) else none

/-- For each name in order the bottom-most field of that name not yet used, or nothing. -/
def selectFields {α : Type} (named : Bytes → α → Bool) : List α → List Bytes → List α
  | _, [] => []
  | fields, name :: names =>
    match takeLast (named name) fields with
    | some (f, rest) => f :: selectFields named rest names
    | none => selectFields named fields names

abbrev Field := Bytes × Bytes

def Field.named (name : Bytes) (f : Field) : Bool := eqIgnoreAsciiCase f.1 name

/-- The names of an h= value. -/
def hTagNames (h : Bytes) : List Bytes := (h.splitOn COLON).map stripFws

def verifierInput (canon : Bytes → Bytes → Bytes) (fields : List Field) (sig : Field) : Option Bytes := do
  let tags ← parseTags (removeFolds sig.2)
  let h ← tags.lookup [104]
  let selected := selectFields Field.named fields (hTagNames h)
  return joinLines (selected.map fun f => canon f.1 f.2) ++ canon sig.1 (deleteB sig.2)

/-! ## Reading a tag list back -/

def tagText (t : Tag) : Bytes := t.1 ++ EQUALS :: t.2

/-- The tags as tokens, each but the last with its semicolon. -/
def tagTokens : List Tag → List Bytes
  | [] => []
  | [t] => [tagText t]
  | t :: u :: ts => (tagText t ++ [SEMICOLON]) :: tagTokens (u :: ts)

/-- A tag as it can be written: a legal name, and a value without white space. -/
structure TagOk (t : Tag) : Prop where
  name : tagNameOk t.1 = true
  value : ∀ b ∈ t.2, isValchar b = true

theorem valchar_plain {b : UInt8} (h : isValchar b = true) : isLwsp b = false ∧ b ≠ SEMICOLON := by
  revert h
  exact forall_uint8 (P := fun b => isValchar b = true → isLwsp b = false ∧ b ≠ SEMICOLON) (by decide +kernel) b

theorem alnum_plain {b : UInt8} (h : (isAsciiAlphanumeric b || b == UNDERSCORE) = true) :
    isLwsp b = false ∧ b ≠ SEMICOLON ∧ b ≠ EQUALS := by
  revert h
  exact forall_uint8 (P := fun b => (isAsciiAlphanumeric b || b == UNDERSCORE) = true →
    isLwsp b = false ∧ b ≠ SEMICOLON ∧ b ≠ EQUALS) (by decide +kernel) b

theorem tagNameOk_plain {name : Bytes} (h : tagNameOk name = true) :
    name ≠ [] ∧ ∀ b ∈ name, isLwsp b = false ∧ b ≠ SEMICOLON ∧ b ≠ EQUALS := by
  cases name with
  | nil => cases h
  | cons c r =>
    simp only [tagNameOk, Bool.and_eq_true, List.all_eq_true] at h
    refine ⟨by simp, fun b hb => alnum_plain ?_⟩
    rcases List.mem_cons.1 hb with rfl | hb
    · have : isAsciiAlphanumeric b = true := by
        simp only [isAsciiAlphanumeric]
        rcases Bool.or_eq_true_iff.1 h.1 with h | h <;> simp [h]
      simp [this]
    · exact h.2 b hb

theorem stripFws_append {s w : Bytes} (hs : ∀ b ∈ s, isLwsp b = true) (hw : ∀ b ∈ w, isLwsp b = false) :
    stripFws (s ++ w) = w := by
  have hdrop : (s ++ w).dropWhile isLwsp = w := by
    rw [List.dropWhile_append_of_pos hs]
    cases w with
    | nil => rfl
    | cons b w => exact List.dropWhile_cons_of_neg (by simp [hw b (by simp)])
  rw [stripFws, hdrop, List.rdropWhile_eq_self_iff]
  intro hne
  simp [hw _ (List.getLast_mem hne)]

theorem stripFws_eq_nil {bs : Bytes} (h : stripFws bs = []) : ∀ b ∈ bs, isLwsp b = true := by
  rw [stripFws, List.rdropWhile_eq_nil_iff] at h
  cases hd : bs.dropWhile isLwsp with
  | nil => exact List.dropWhile_eq_nil_iff.1 hd
  | cons c r =>
    have hc := List.head?_dropWhile_not isLwsp bs
    rw [hd] at hc h
    simp [h c (by simp)] at hc

theorem splitOn_first {x : UInt8} {a : Bytes} (ha : x ∉ a) (b : Bytes) :
    (a ++ x :: b).splitOn x = a :: b.splitOn x := by
  have hs : ∀ y ∈ a, (y == x) = false := by
    intro y hy
    exact beq_false_of_ne (by rintro rfl; exact ha hy)
  rw [List.splitOn, List.splitOnP_append_cons a b (by simp), List.splitOnP_eq_singleton hs]
  rfl

theorem splitOn_none {x : UInt8} {a : Bytes} (ha : x ∉ a) : a.splitOn x = [a] :=
  List.splitOnP_eq_singleton fun y hy => beq_false_of_ne (by rintro rfl; exact ha hy)

section
variable {s : Bytes} {t : Tag}

/-- Where the name of a written tag ends. -/
theorem tagText_cut (hs : ∀ b ∈ s, isLwsp b = true) (ht : TagOk t) :
    (s ++ tagText t).takeWhile (· != EQUALS) = s ++ t.1 ∧ (s ++ tagText t).dropWhile (· != EQUALS) = EQUALS :: t.2 := by
  have hname : ∀ b ∈ s ++ t.1, (b != EQUALS) = true := by
    intro b hb
    rcases List.mem_append.1 hb with h | h
    · have := hs b h
      exact bne_iff_ne.2 (by rintro rfl; revert this; decide)
    · exact bne_iff_ne.2 ((tagNameOk_plain ht.name).2 b h).2.2
  rw [tagText, ← List.append_assoc, List.takeWhile_append_of_pos hname, List.dropWhile_append_of_pos hname]
  simp

theorem parseTag_text (hs : ∀ b ∈ s, isLwsp b = true) (ht : TagOk t) : parseTag (s ++ tagText t) = some t := by
  obtain ⟨htake, hdrop⟩ := tagText_cut hs ht
  have hname : stripFws (s ++ t.1) = t.1 := stripFws_append hs fun b hb => ((tagNameOk_plain ht.name).2 b hb).1
  have hvalue : stripFws t.2 = t.2 :=
    stripFws_append (s := []) (by simp) fun b hb => (valchar_plain (ht.value b hb)).1
  have hall : t.2.all (fun b => isValchar b || isLwsp b) = true :=
    List.all_eq_true.2 fun b hb => by simp [ht.value b hb]
  simp only [parseTag, htake, hdrop, hname, hvalue, ht.name, hall]
  rfl

/-- The b= tag with its value deleted. -/
def emptyB (t : Tag) : Tag := if t.1 = [98] then (t.1, []) else t

theorem emptyB_ok (ht : TagOk t) : TagOk (emptyB t) := by
  unfold emptyB
  split
  · exact ⟨ht.name, by simp⟩
  · exact ht

theorem blankB_text (hs : ∀ b ∈ s, isLwsp b = true) (ht : TagOk t) :
    blankB (s ++ tagText t) = s ++ tagText (emptyB t) := by
  obtain ⟨htake, hdrop⟩ := tagText_cut hs ht
  have hname : stripFws (s ++ t.1) = t.1 := stripFws_append hs fun b hb => ((tagNameOk_plain ht.name).2 b hb).1
  simp only [blankB, htake, hdrop, hname, emptyB]
  by_cases hb : t.1 = [98] <;> simp [hb, tagText]

theorem tagText_semicolon (hs : ∀ b ∈ s, isLwsp b = true) (ht : TagOk t) : SEMICOLON ∉ s ++ tagText t := by
  intro h
  simp only [tagText, List.mem_append, List.mem_cons] at h
  rcases h with h | h | h | h
  · have := hs _ h; revert this; decide
  · exact ((tagNameOk_plain ht.name).2 _ h).2.1 rfl
  · revert h; decide
  · exact (valchar_plain (ht.value _ h)).2 rfl

theorem tagText_plain (ht : TagOk t) : tagText t ≠ [] ∧ ∀ b ∈ tagText t, isLwsp b = false := by
  refine ⟨by simp [tagText], fun b hb => ?_⟩
  simp only [tagText, List.mem_append, List.mem_cons] at hb
  rcases hb with hb | rfl | hb
  · exact ((tagNameOk_plain ht.name).2 b hb).1
  · rfl
  · exact (valchar_plain (ht.value b hb)).1

theorem tagText_nul (ht : TagOk t) : NUL ∉ tagText t := by
  have hname : ∀ name : Bytes, tagNameOk name = true → NUL ∉ name := by
    rintro (_ | ⟨c, r⟩) h hm
    · cases hm
    · simp only [tagNameOk, Bool.and_eq_true, List.all_eq_true] at h
      rcases List.mem_cons.1 hm with rfl | hm
      · exact absurd h.1 (by decide)
      · exact absurd (h.2 NUL hm) (by decide)
  intro hm
  simp only [tagText, List.mem_append, List.mem_cons] at hm
  rcases hm with hm | hm | hm
  · exact hname t.1 ht.name hm
  · exact absurd hm (by decide)
  · exact absurd (ht.value NUL hm) (by decide)

/-- The first part of a longer list. -/
theorem splitOn_part (hs : ∀ b ∈ s, isLwsp b = true) (ht : TagOk t) (s' v : Bytes) :
    (s ++ (tagText t ++ [SEMICOLON] ++ s' ++ v)).splitOn SEMICOLON = (s ++ tagText t) :: (s' ++ v).splitOn SEMICOLON := by
  have := splitOn_first (tagText_semicolon hs ht) (s' ++ v)
  simpa using this

end

theorem tagTokens_cons_ne_nil (t : Tag) (ts : List Tag) : tagTokens (t :: ts) ≠ [] := by
  cases ts <;> simp [tagTokens]

theorem tagTokens_nul : ∀ {tags : List Tag}, (∀ t ∈ tags, TagOk t) → ∀ x ∈ tagTokens tags, NUL ∉ x
  | [], _, x, hx => by cases hx
  | [t], hok, x, hx => by
    obtain rfl : x = tagText t := by simpa [tagTokens] using hx
    exact tagText_nul (hok t (by simp))
  | t :: u :: ts, hok, x, hx => by
    rcases List.mem_cons.1 hx with rfl | hx
    · intro hm
      rcases List.mem_append.1 hm with hm | hm
      · exact tagText_nul (hok t (by simp)) hm
      · exact absurd (List.mem_singleton.1 hm) (by decide)
    · exact tagTokens_nul (fun y hy => hok y (List.mem_cons_of_mem _ hy)) x hx

theorem parseParts_joined {S : Bytes → Prop} (hS : ∀ s, S s → ∀ b ∈ s, isLwsp b = true) :
    ∀ {tags : List Tag} {v s : Bytes}, (∀ t ∈ tags, TagOk t) → (∀ b ∈ s, isLwsp b = true) →
      Joined S (tagTokens tags) v → parseParts ((s ++ v).splitOn SEMICOLON) = some tags
  | [], _, _, _, _, h => absurd rfl h.ne_nil
  | [t], v, s, hok, hs, h => by
    have ht := hok t (by simp)
    cases h with
    | cons _ _ h => exact absurd rfl h.ne_nil
    | one =>
      have hne : (stripFws (s ++ tagText t)).isEmpty = false := by
        rw [List.isEmpty_eq_false_iff]
        intro hnil
        exact absurd (stripFws_eq_nil hnil EQUALS (by simp [tagText])) (by decide)
      rw [splitOn_none (tagText_semicolon hs ht), parseParts, hne, Bool.and_false, if_neg (by simp), parseTag_text hs ht]
      rfl
  | t :: u :: ts, v, s, hok, hs, h => by
    have ht := hok t (by simp)
    obtain ⟨s', v', hs', htail, rfl⟩ := h.cons_inv (tagTokens_cons_ne_nil u ts)
    have hrest := parseParts_joined hS (fun x hx => hok x (List.mem_cons_of_mem _ hx)) (hS s' hs') htail
    rw [splitOn_part hs ht, parseParts, if_neg (by simp [List.splitOn_ne_nil]), parseTag_text hs ht, hrest]
    rfl

theorem deleteB_joined {S : Bytes → Prop} (hS : ∀ s, S s → ∀ b ∈ s, isLwsp b = true) :
    ∀ {tags : List Tag} {v s : Bytes}, (∀ t ∈ tags, TagOk t) → (∀ b ∈ s, isLwsp b = true) →
      Joined S (tagTokens tags) v → ∃ v', deleteB (s ++ v) = s ++ v' ∧ Joined S (tagTokens (tags.map emptyB)) v'
  | [], _, _, _, _, h => absurd rfl h.ne_nil
  | [t], v, s, hok, hs, h => by
    have ht := hok t (by simp)
    cases h with
    | cons _ _ h => exact absurd rfl h.ne_nil
    | one =>
      refine ⟨tagText (emptyB t), ?_, .one _⟩
      rw [deleteB, splitOn_none (tagText_semicolon hs ht), List.map_singleton, List.intercalate_singleton,
        blankB_text hs ht]
  | t :: u :: ts, v, s, hok, hs, h => by
    have ht := hok t (by simp)
    obtain ⟨s', v', hs', htail, rfl⟩ := h.cons_inv (tagTokens_cons_ne_nil u ts)
    obtain ⟨v'', hdel, hjoin⟩ := deleteB_joined hS (fun x hx => hok x (List.mem_cons_of_mem _ hx)) (hS s' hs') htail
    refine ⟨tagText (emptyB t) ++ [SEMICOLON] ++ s' ++ v'', ?_, .cons _ hs' hjoin⟩
    rw [deleteB] at hdel
    rw [deleteB, splitOn_part hs ht, List.map_cons, List.intercalate_cons_of_ne_nil (by simp [List.splitOn_ne_nil]),
      hdel, blankB_text hs ht]
    simp

/-! ## What is selected -/

section
variable {α : Type}

theorem takeLast_eq_none {p : α → Bool} : ∀ {l : List α}, takeLast p l = none → l.filter p = []
  | [], _ => rfl
  | a :: l, h => by
    rw [takeLast] at h
    cases hl : takeLast p l with
    | some _ => rw [hl] at h; cases h
    | none =>
      rw [hl] at h
      cases ha : p a with
      | true => simp [ha] at h
      | false => rw [List.filter_cons_of_neg (by simp [ha]), takeLast_eq_none hl]

/-- The element taken is the last one with the property; nothing else is taken. -/
theorem takeLast_eq_some {p : α → Bool} {a : α} : ∀ {l r : List α}, takeLast p l = some (a, r) →
    l.filter p = r.filter p ++ [a] ∧ ∀ q : α → Bool, q a = false → r.filter q = l.filter q
  | [], _, h => by cases h
  | b :: l, r, h => by
    rw [takeLast] at h
    cases hl : takeLast p l with
    | some c =>
      obtain ⟨c, r'⟩ := c
      rw [hl] at h
      cases h
      obtain ⟨hp, hq⟩ := takeLast_eq_some hl
      refine ⟨by cases hb : p b <;> simp [hb, hp], fun q hqa => ?_⟩
      cases hb : q b <;> simp [hb, hq q hqa]
    | none =>
      rw [hl] at h
      cases hb : p b with
      | false => simp [hb] at h
      | true =>
        simp only [hb, if_true] at h
        cases h
        have hnil := takeLast_eq_none hl
        exact ⟨by simp [hb, hnil], fun q hqa => by simp [hqa]⟩

/-- No field bears two of the names. -/
def Distinct (named : Bytes → α → Bool) (names : List Bytes) : Prop :=
  names.Pairwise fun n n' => ∀ f, named n f = true → named n' f = false

variable {named : Bytes → α → Bool}

/-- The bottom-most field of a name. -/
def bottom (named : Bytes → α → Bool) (fields : List α) (name : Bytes) : Option α :=
  (fields.filter (named name)).getLast?

theorem bottom_congr {fields rest : List α} {names : List Bytes} {f : α} (hf : ∀ n ∈ names, named n f = false)
    (hrest : ∀ q : α → Bool, q f = false → rest.filter q = fields.filter q) :
    names.filterMap (bottom named rest) = names.filterMap (bottom named fields) := by
  induction names with
  | nil => rfl
  | cons n names ih =>
    have hb : bottom named rest n = bottom named fields n := by
      rw [bottom, bottom, hrest _ (hf n (by simp))]
    rw [List.filterMap_cons, List.filterMap_cons, hb, ih fun m hm => hf m (by simp [hm])]

theorem takeLast_named {fields r : List α} {name : Bytes} {f : α} (h : takeLast (named name) fields = some (f, r)) :
    named name f = true := by
  have hmem : f ∈ fields.filter (named name) := by rw [(takeLast_eq_some h).1]; simp
  exact (List.mem_filter.1 hmem).2

/-- **For distinct names the selection is the bottom-most field of each.** -/
theorem selectFields_distinct : ∀ {names : List Bytes} (fields : List α), Distinct named names →
    selectFields named fields names = names.filterMap (bottom named fields)
  | [], _, _ => rfl
  | n :: names, fields, hd => by
    obtain ⟨hn, hd'⟩ := List.pairwise_cons.1 hd
    rw [selectFields, List.filterMap_cons]
    cases ht : takeLast (named n) fields with
    | none =>
      have hb : bottom named fields n = none := by rw [bottom, takeLast_eq_none ht]; rfl
      rw [hb]
      exact selectFields_distinct fields hd'
    | some fr =>
      obtain ⟨f, r⟩ := fr
      obtain ⟨hf, hr⟩ := takeLast_eq_some ht
      have hb : bottom named fields n = some f := by rw [bottom, hf]; simp
      simp only [hb]
      rw [selectFields_distinct r hd', bottom_congr (fun m hm => hn m hm f (takeLast_named ht)) hr]

/-- **A name listed twice takes its last two fields**, the later one first. -/
theorem selectFields_twice {name : Bytes} {names : List Bytes} (fields : List α) (hd : Distinct named (name :: names)) :
    selectFields named fields (name :: name :: names) =
      (fields.filter (named name)).reverse.take 2 ++ names.filterMap (bottom named fields) := by
  obtain ⟨hn, hd'⟩ := List.pairwise_cons.1 hd
  rw [selectFields]
  cases ht : takeLast (named name) fields with
  | none =>
    simp only
    rw [selectFields, ht]
    simp only
    rw [selectFields_distinct fields hd', takeLast_eq_none ht]
    rfl
  | some fr =>
    obtain ⟨f, r⟩ := fr
    obtain ⟨hf, hr⟩ := takeLast_eq_some ht
    have hfn : ∀ m ∈ names, named m f = false := fun m hm => hn m hm f (takeLast_named ht)
    simp only
    rw [selectFields]
    cases ht' : takeLast (named name) r with
    | none =>
      simp only
      rw [selectFields_distinct r hd', bottom_congr hfn hr, hf, takeLast_eq_none ht']
      rfl
    | some gr =>
      obtain ⟨g, r'⟩ := gr
      obtain ⟨hg, hr'⟩ := takeLast_eq_some ht'
      simp only
      rw [selectFields_distinct r' hd', bottom_congr (fun m hm => hn m hm g (takeLast_named ht')) hr',
        bottom_congr hfn hr, hf, hg]
      simp

end

end DkimLite.Rfc
