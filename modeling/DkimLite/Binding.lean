import DkimLite.VerifierSpec

/-!
# What a signature binds

`signed_fields_bound`: a message whose selected fields hash to the same bytes has exactly one
From field, and for each name of h= a bottom-most field with the same canonical form.

The hash input can be read back because a canonical field holds no LF (`joinLines_inj`). The
second From slot of h= is what makes a second From field visible: it would put a second field
of that name in a place where another name is expected (`fieldName`).
-/

namespace DkimLite
open Rust Text Rfc

/-- The name of a canonical field: what stands before the first colon. -/
def fieldName (field : Bytes) : Bytes := field.takeWhile (· != COLON)

theorem fieldName_relaxedField {name : Bytes} (h : COLON ∉ name) (value : Bytes) :
    fieldName (relaxedField name value) = lower name := by
  have hpos : ∀ b ∈ lower name, (b != COLON) = true := by
    intro b hb
    refine bne_iff_ne.2 ?_
    rintro rfl
    exact h ((mem_lower_iff (by decide) (by decide) name).1 hb)
  rw [fieldName, relaxedField, List.takeWhile_append_of_pos hpos]
  simp

/-- The canonical form of the bottom-most field of a name. -/
def canonicalOf (headers : List Header) (name : Bytes) : Option Bytes :=
  (bottomMost headers name).map fun h => relaxedField h.name h.value

/-- The canonical fields a verifier hashes for the names `hNames`. -/
def selectedFields (headers : List Header) (hNames : List Bytes) : List Bytes :=
  (selectFields Field.named (fieldsOf id headers) hNames).map fun f => relaxedField f.1 f.2

theorem canonicalOf_name {headers : List Header} {name c : Bytes} (h : canonicalOf headers name = some c) :
    fieldName c = lower name ∧ LF ∉ c := by
  obtain ⟨f, hf, rfl⟩ := Option.map_eq_some_iff.1 h
  have his := (bottomMost_eq_some hf).2
  exact ⟨by rw [fieldName_relaxedField f.name_colon, eqIgnoreAsciiCase_iff.1 his], relaxedField_lf f.name_lf _⟩

/-- The From slots take up to two fields, the other names one each. -/
theorem selectedFields_eq (headers : List Header) {names : List Bytes} (h : (fromName :: names).Sublist signedHeaders) :
    selectedFields headers (fromName :: fromName :: names) =
      ((headers.filter (·.is fromName)).reverse.take 2).map (fun h => relaxedField h.name h.value) ++
        names.filterMap (canonicalOf headers) := by
  rw [selectedFields, selectFields_twice _ (signedHeaders_distinct h), filter_fieldsOf, List.map_append]
  congr 1
  · rw [fieldsOf, ← List.map_reverse, ← List.map_take, List.map_map]
    rfl
  · rw [List.map_filterMap]
    refine List.filterMap_congr fun n _ => ?_
    rw [bottom, filter_fieldsOf, fieldsOf, List.getLast?_map, List.getLast?_filter, Option.map_map]
    rfl

/-- Dropping the arguments without a result changes no result. -/
theorem filterMap_answered {α β : Type} (f : α → Option β) (l : List α) :
    (l.filter fun a => (f a).isSome).filterMap f = l.filterMap f ∧
      (l.filterMap f).length = (l.filter fun a => (f a).isSome).length := by
  induction l with
  | nil => exact ⟨rfl, rfl⟩
  | cons a l ih =>
    cases ha : f a with
    | none =>
      rw [List.filter_cons_of_neg (by simp [ha]), List.filterMap_cons_none ha]
      exact ih
    | some b =>
      rw [List.filter_cons_of_pos (by simp [ha]), List.filterMap_cons_some ha, List.filterMap_cons_some ha, ih.1]
      exact ⟨rfl, by rw [List.length_cons, List.length_cons, ih.2]⟩

theorem filterMap_length_eq {α β : Type} {f : α → Option β} : ∀ {l : List α}, (l.filterMap f).length = l.length →
    ∀ a ∈ l, (f a).isSome = true
  | [], _, a, ha => by cases ha
  | b :: l, h, a, ha => by
    cases hb : f b with
    | none =>
      have := List.length_filterMap_le f l
      rw [List.filterMap_cons_none hb] at h
      simp at h
      omega
    | some c =>
      rw [List.filterMap_cons_some hb, List.length_cons, List.length_cons, Nat.add_right_cancel_iff] at h
      rcases List.mem_cons.1 ha with rfl | ha
      · rw [hb]; rfl
      · exact filterMap_length_eq h a ha

/-- Two lists of results of the same length as the arguments agree argument by argument. -/
theorem filterMap_congr_of_eq {α β : Type} {f g : α → Option β} : ∀ {l : List α}, (l.filterMap f).length = l.length →
    l.filterMap f = l.filterMap g → ∀ a ∈ l, f a = g a
  | [], _, _, a, ha => by cases ha
  | b :: l, hlen, heq, a, ha => by
    obtain ⟨c, hc⟩ := Option.isSome_iff_exists.1 (filterMap_length_eq hlen b (by simp))
    obtain ⟨d, hd⟩ := Option.isSome_iff_exists.1 (filterMap_length_eq (heq ▸ hlen) b (by simp))
    rw [List.filterMap_cons_some hc, List.length_cons, List.length_cons, Nat.add_right_cancel_iff] at hlen
    rw [List.filterMap_cons_some hc, List.filterMap_cons_some hd, List.cons.injEq] at heq
    rcases List.mem_cons.1 ha with rfl | ha
    · rw [hc, hd, heq.1]
    · exact filterMap_congr_of_eq hlen heq.2 a ha

theorem canonicalOf_from {headers : List Header} {header : Header} (h : headers.filter (·.is fromName) = [header]) :
    canonicalOf headers fromName = some (relaxedField header.name header.value) := by
  rw [canonicalOf, bottomMost, ← List.getLast?_filter, h]
  rfl

/-- One canonical From field among the first two, and every other name answered. -/
theorem from_slots {headers : List Header} {names fields : List Bytes} {c : Bytes} (hnames : fromName ∉ names)
    (hlower : ∀ n ∈ names, lower n = n) (hlen : fields.length = names.length)
    (hfields : ∀ i (hi : i < fields.length), ∃ n ∈ names, fieldName fields[i] = lower n)
    (heq : ((headers.filter (·.is fromName)).reverse.take 2).map (fun h => relaxedField h.name h.value) ++
      names.filterMap (canonicalOf headers) = c :: fields) :
    ∃ header, headers.filter (·.is fromName) = [header] ∧ relaxedField header.name header.value = c ∧
      names.filterMap (canonicalOf headers) = fields := by
  have hle := List.length_filterMap_le (canonicalOf headers) names
  match hfrom : headers.filter (·.is fromName) with
  | [] =>
    rw [hfrom] at heq
    have := congrArg List.length heq
    simp at this
    omega
  | [header] =>
    rw [hfrom] at heq
    simp only [List.reverse_singleton, List.take_succ_cons, List.take_nil, List.map_singleton, List.singleton_append,
      List.cons.injEq] at heq
    exact ⟨header, hfrom, heq.1, heq.2⟩
  | f :: g :: rest =>
    -- the second From would stand where another name is expected
    obtain ⟨a, b, htake⟩ : ∃ a b, (headers.filter (·.is fromName)).reverse.take 2 = [a, b] := by
      rw [hfrom]
      match hr : ((f :: g :: rest).reverse).take 2 with
      | [a, b] => exact ⟨a, b, rfl⟩
      | [] => have := congrArg List.length hr; simp at this
      | [_] => have := congrArg List.length hr; simp at this
      | _ :: _ :: _ :: _ => have := congrArg List.length hr; simp at this
    have hb : b.is fromName = true := by
      have hmem : b ∈ (headers.filter (·.is fromName)).reverse :=
        List.mem_of_mem_take (by rw [htake]; simp)
      exact (List.mem_filter.1 (List.mem_reverse.1 hmem)).2
    rw [htake] at heq
    simp only [List.map_cons, List.map_nil, List.cons_append, List.nil_append, List.cons.injEq] at heq
    obtain ⟨-, heq⟩ := heq
    have hpos : 0 < fields.length := by rw [← heq]; simp
    obtain ⟨n, hn, hname⟩ := hfields 0 hpos
    have h0 : fields[0] = relaxedField b.name b.value := by simp [← heq]
    rw [h0, fieldName_relaxedField b.name_colon, eqIgnoreAsciiCase_iff.1 hb, hlower n hn] at hname
    rw [show lower fromName = fromName by decide] at hname
    exact absurd (hname ▸ hn) hnames

section
variable {Key : Type}

/-- **What was signed cannot be replaced**: fields that hash to the same bytes have one From
field and, for each name of h=, the same bottom-most field up to canonicalization. -/
theorem signed_fields_bound {env : Env Key} {config : RuntimeConfig Key} {headers headers' : List Header}
    {bodyHash : Digest} {signed : Signed} (h : sign env config headers bodyHash = .ok signed)
    (hsame : joinLines (selectedFields headers' signed.hNames) ++
      relaxedField dkimSignatureName (deleteB signed.value) = signed.hashed) :
    (∃ header, headers'.filter (·.is fromName) = [header]) ∧
      ∀ name ∈ signed.hNames, ∃ c, canonicalOf headers name = some c ∧ canonicalOf headers' name = some c := by
  have hel := eligible_of_sign h
  rw [sign_eligible hel] at h
  obtain ⟨header, domain, hfrom, -, -⟩ := hel
  obtain ⟨timestamp, signature, -, hnames, hhashed, -, -⟩ := signSelected_eq_ok h
  have hcfrom := canonicalOf_from hfrom
  have hbfrom : (bottomMost headers fromName).isSome = true := by
    rw [bottomMost, ← List.getLast?_filter, hfrom]; rfl
  have hothers : otherNames headers = signedHeaders.tail.filter fun n => (canonicalOf headers n).isSome := by
    simp only [otherNames, canonicalOf, Option.isSome_map]
  have hmem : ∀ n ∈ otherNames headers, n ∈ signedHeaders.tail := fun n hn => (List.mem_filter.1 hn).1
  obtain ⟨hanswered, hlen⟩ := filterMap_answered (canonicalOf headers) signedHeaders.tail
  rw [← hothers] at hanswered hlen
  rw [hNamesOf_from hbfrom] at hnames
  have hsigned : (signedHeaders.filterMap (bottomMost headers)).map (fun h => relaxedField h.name h.value) =
      relaxedField header.name header.value :: (otherNames headers).filterMap (canonicalOf headers) := by
    have hmap : (signedHeaders.filterMap (bottomMost headers)).map (fun h => relaxedField h.name h.value) =
        signedHeaders.filterMap (canonicalOf headers) := List.map_filterMap
    rw [hmap, hanswered, ← List.filterMap_cons_some hcfrom]
    rfl
  rw [hnames, selectedFields_eq headers' (otherNames_sublist headers), hhashed, hashInputOf, hsigned] at hsame
  have hlf : ∀ (hs : List Header) (names : List Bytes), ∀ l ∈ names.filterMap (canonicalOf hs), LF ∉ l := by
    intro hs names l hl
    obtain ⟨n, -, hn⟩ := List.mem_filterMap.1 hl
    exact (canonicalOf_name hn).2
  have hsigname : LF ∉ dkimSignatureName := by decide
  obtain ⟨heq, -⟩ := joinLines_inj
    (by
      intro l hl
      rcases List.mem_append.1 hl with hl | hl
      · obtain ⟨f, -, rfl⟩ := List.mem_map.1 hl
        exact relaxedField_lf f.name_lf _
      · exact hlf _ _ l hl)
    (by
      intro l hl
      rcases List.mem_cons.1 hl with rfl | hl
      · exact relaxedField_lf header.name_lf _
      · exact hlf _ _ l hl)
    (relaxedField_lf hsigname _) (relaxedField_lf hsigname _) hsame
  obtain ⟨header', hfrom', hc, hrest⟩ := from_slots
    (fun hn => absurd (hmem _ hn) (by decide))
    (fun n hn => (by decide : ∀ n ∈ signedHeaders.tail, lower n = n) n (hmem n hn))
    (by rw [hanswered, hlen])
    (fun i hi => by
      obtain ⟨n, hn, hcn⟩ := List.mem_filterMap.1 (List.getElem_mem hi)
      exact ⟨n, hn, (canonicalOf_name hcn).1⟩)
    heq
  refine ⟨⟨header', hfrom'⟩, fun name hname => ?_⟩
  have hfromCase : ∃ c, canonicalOf headers fromName = some c ∧ canonicalOf headers' fromName = some c :=
    ⟨_, hcfrom, by rw [canonicalOf_from hfrom', hc]⟩
  rw [hnames] at hname
  rcases List.mem_cons.1 hname with rfl | hname
  · exact hfromCase
  rcases List.mem_cons.1 hname with rfl | hname
  · exact hfromCase
  have hsame' := filterMap_congr_of_eq (by rw [hanswered, hlen]) hrest.symm name hname
  rw [hothers] at hname
  obtain ⟨c, hc⟩ := Option.isSome_iff_exists.1 (List.mem_filter.1 hname).2
  exact ⟨c, hc, hsame' ▸ hc⟩

end

/-- A message with one more field that h= does not list, and its Subject spaced otherwise. -/
theorem signed_fields_bound_respaced :
    let headers : List Header :=
      [⟨ascii "From", ascii "alice@example.com", by decide, by decide⟩,
        ⟨ascii "Subject", ascii "two words", by decide, by decide⟩]
    let headers' : List Header :=
      [⟨ascii "subject", ascii "  two  words", by decide, by decide⟩, ⟨ascii "X-Other", [], by decide, by decide⟩,
        ⟨ascii "FROM", ascii "alice@example.com", by decide, by decide⟩]
    ∃ signed, sign exampleEnv exampleConfig headers emptyDigest = .ok signed ∧
      (∃ header, headers'.filter (·.is fromName) = [header]) ∧
      ∀ name ∈ signed.hNames, ∃ c, canonicalOf headers name = some c ∧ canonicalOf headers' name = some c := by
  intro headers headers'
  obtain ⟨signed, h, hsame⟩ := Exec.okAnd_eq_true.1
    (by decide +kernel : (sign exampleEnv exampleConfig headers emptyDigest).okAnd (fun signed =>
      joinLines (selectedFields headers' signed.hNames) ++ relaxedField dkimSignatureName (deleteB signed.value) ==
        signed.hashed) = true)
  exact ⟨signed, h, signed_fields_bound h (by simpa using hsame)⟩

end DkimLite
