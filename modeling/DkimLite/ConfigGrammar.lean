import DkimLite.ConfigFile
import Mathlib.Data.List.Nodup
import Mathlib.Data.List.Perm.Basic

/-!
# The grammar of the configuration file

`WellFormed` is the grammar: every line that counts is `name=value`, no name stands twice, and
every value is what its name asks for. `Configures` says what the settings of such a file mean.
`load_ok` ties them to the loop: `Reading` is what its variables hold after the entries read so
far, kept by every line (`Reading.sets`) and so by all of them (`readLines_sound`,
`readLines_complete`).
-/

namespace DkimLite
open Rust Text

/-! ## Lines and entries -/

/-- A trimmed line that is neither blank nor a comment. -/
def counts (line : List Char) : Bool := !(line.isEmpty || line.head? == some '#')

/-- The lines that count, trimmed. -/
def significant (raws : List (List Char)) : List (List Char) := (raws.map trim).filter counts

structure Entry where
  name : List Char
  value : List Char
deriving DecidableEq

/-- A line is `name=value`, cut at its first `=`; the entry has both parts trimmed. -/
def Entry.Written (line : List Char) (e : Entry) : Prop :=
  ∃ l r, line = l ++ '=' :: r ∧ '=' ∉ l ∧ e = ⟨trim l, trim r⟩

/-- The name is a setting's, and the value is one of that setting. -/
inductive Entry.Ok : Entry → Prop
  | domain {v : List Char} {d : DnsName} : validateDnsName "domain" v = .ok d → Ok ⟨"domain".toList, v⟩
  | selector {v : List Char} {d : DnsName} : validateDnsName "selector" v = .ok d → Ok ⟨"selector".toList, v⟩
  | privateKey {v : List Char} : Ok ⟨"private_key".toList, v⟩
  | listen {v : List Char} {l : ListenAddr} : parseListen v = .ok l → Ok ⟨"listen".toList, v⟩
  | requireFips {v : List Char} : v = "true".toList ∨ v = "false".toList → Ok ⟨"require_fips".toList, v⟩

structure WellFormed (raws : List (List Char)) (entries : List Entry) : Prop where
  written : List.Forall₂ Entry.Written (significant raws) entries
  values : ∀ e ∈ entries, e.value ≠ [] ∧ e.Ok
  names : (entries.map Entry.name).Nodup

/-- What the entries of a file configure. -/
structure Configures {Key : Type} (files : Files) (ssl : OpenSsl Key) (keys : KeyFormat Key) (entries : List Entry)
    (config : RuntimeConfig Key) : Prop where
  domain : ∃ v, ⟨"domain".toList, v⟩ ∈ entries ∧ validateDnsName "domain" v = .ok config.domain
  selector : ∃ v, ⟨"selector".toList, v⟩ ∈ entries ∧ validateDnsName "selector" v = .ok config.selector
  privateKey : ∃ v, ⟨"private_key".toList, v⟩ ∈ entries ∧ v.head? = some '/' ∧ config.privateKey = utf8 v
  listen : ∃ v, ⟨"listen".toList, v⟩ ∈ entries ∧ parseListen v = .ok config.listen
  requireFips : ∀ v, ⟨"require_fips".toList, v⟩ ∈ entries → v = (if config.requireFips then "true".toList else "false".toList)
  /-- the default -/
  fipsAbsent : "require_fips".toList ∉ entries.map Entry.name → config.requireFips = true
  key : ∃ bytes, files.read config.privateKey = .ok bytes ∧ keys.privateKeyFromPem bytes = .ok config.key ∧
    validateKey ssl keys config.key = .ok ()

/-! ## One line -/

/-- What an entry does to the variables of the loop. -/
inductive Sets (s : Settings) : Entry → Settings → Prop
  | domain {v : List Char} {d : DnsName} : validateDnsName "domain" v = .ok d →
      Sets s ⟨"domain".toList, v⟩ { s with domain := some d }
  | selector {v : List Char} {d : DnsName} : validateDnsName "selector" v = .ok d →
      Sets s ⟨"selector".toList, v⟩ { s with selector := some d }
  | privateKey {v : List Char} : Sets s ⟨"private_key".toList, v⟩ { s with privateKey := some v }
  | listen {v : List Char} {l : ListenAddr} : parseListen v = .ok l → Sets s ⟨"listen".toList, v⟩ { s with listen := some l }
  | fipsTrue : Sets s ⟨"require_fips".toList, "true".toList⟩ { s with requireFips := true }
  | fipsFalse : Sets s ⟨"require_fips".toList, "false".toList⟩ { s with requireFips := false }

theorem Sets.ok {s s' : Settings} {e : Entry} (h : Sets s e s') : e.Ok := by
  cases h with
  | domain h => exact .domain h
  | selector h => exact .selector h
  | privateKey => exact .privateKey
  | listen h => exact .listen h
  | fipsTrue => exact .requireFips (Or.inl rfl)
  | fipsFalse => exact .requireFips (Or.inr rfl)

theorem Entry.Ok.sets {e : Entry} (h : e.Ok) (s : Settings) : ∃ s', Sets s e s' := by
  cases h with
  | domain h => exact ⟨_, .domain h⟩
  | selector h => exact ⟨_, .selector h⟩
  | privateKey => exact ⟨_, .privateKey⟩
  | listen h => exact ⟨_, .listen h⟩
  | requireFips h =>
    rcases h with rfl | rfl
    · exact ⟨_, .fipsTrue⟩
    · exact ⟨_, .fipsFalse⟩

theorem setting_ok {s s' : Settings} {index : Nat} {name value : List Char} :
    setting s index name value = .ok s' ↔ Sets s ⟨name, value⟩ s' := by
  constructor
  · intro h
    unfold setting at h
    split at h
    · rename_i hname
      obtain ⟨d, hd, ⟨⟩⟩ := bind_eq_ok.1 h
      exact hname ▸ .domain hd
    split at h
    · rename_i hname
      obtain ⟨d, hd, ⟨⟩⟩ := bind_eq_ok.1 h
      exact hname ▸ .selector hd
    split at h
    · rename_i hname
      cases h
      exact hname ▸ .privateKey
    split at h
    · rename_i hname
      obtain ⟨l, hl, ⟨⟩⟩ := bind_eq_ok.1 h
      exact hname ▸ .listen hl
    split at h
    · rename_i hname
      split at h
      · rename_i hvalue
        cases h
        exact hname ▸ hvalue ▸ .fipsTrue
      split at h
      · rename_i hvalue
        cases h
        exact hname ▸ hvalue ▸ .fipsFalse
      · cases h
    · cases h
  · intro h
    unfold setting
    cases h with
    | domain h => rw [if_pos rfl, h]; rfl
    | selector h => rw [if_neg (by decide), if_pos rfl, h]; rfl
    | privateKey => rw [if_neg (by decide), if_neg (by decide), if_pos rfl]; rfl
    | listen h => rw [if_neg (by decide), if_neg (by decide), if_neg (by decide), if_pos rfl, h]; rfl
    | fipsTrue =>
      rw [if_neg (by decide), if_neg (by decide), if_neg (by decide), if_neg (by decide), if_pos rfl, if_pos rfl]
      rfl
    | fipsFalse =>
      rw [if_neg (by decide), if_neg (by decide), if_neg (by decide), if_neg (by decide), if_pos rfl,
        if_neg (by decide), if_pos rfl]
      rfl

theorem readLine_skipped {s : Settings} {index : Nat} {raw : List Char} (h : counts (trim raw) = false) :
    readLine s index raw = .ok s := by
  simp only [counts, Bool.not_eq_false'] at h
  simp only [readLine, h, if_true]
  rfl

theorem readLine_counts {s s' : Settings} {index : Nat} {raw : List Char} (h : counts (trim raw) = true) :
    readLine s index raw = .ok s' ↔ ∃ e : Entry, e.Written (trim raw) ∧ e.value ≠ [] ∧ e.name ∉ s.seen ∧
      Sets { s with seen := e.name :: s.seen } e s' := by
  simp only [counts, Bool.not_eq_true'] at h
  simp only [readLine, h, Bool.false_eq_true, if_false, bind_eq_ok, okOr_eq_ok, Prod.exists]
  constructor
  · rintro ⟨l, r, hsplit, hrest⟩
    obtain ⟨hline, hl⟩ := splitOnce_eq_some.1 hsplit
    split at hrest
    · cases hrest
    split at hrest
    · cases hrest
    rename_i hvalue hseen
    exact ⟨⟨trim l, trim r⟩, ⟨l, r, hline, hl, rfl⟩, by simpa using hvalue, by simpa using hseen, setting_ok.1 hrest⟩
  · rintro ⟨-, ⟨l, r, hline, hl, rfl⟩, hvalue, hseen, hsets⟩
    refine ⟨l, r, splitOnce_eq_some.2 ⟨hline, hl⟩, ?_⟩
    rw [if_neg (by simpa using hvalue), if_neg (by simpa using hseen)]
    exact setting_ok.2 hsets

/-! ## The loop -/

/-- `o` holds the value of the setting `name` among the entries, as `R` reads it. -/
def Given {α : Type} (name : List Char) (R : List Char → α → Prop) (entries : List Entry) (o : Option α) : Prop :=
  ∀ a, o = some a ↔ ∃ v, ⟨name, v⟩ ∈ entries ∧ R v a

theorem Given.other {α : Type} {name : List Char} {R : List Char → α → Prop} {entries : List Entry} {o : Option α}
    (h : Given name R entries o) {e : Entry} (he : e.name ≠ name) : Given name R (entries ++ [e]) o := by
  intro a
  rw [h a]
  refine exists_congr fun v => and_congr_left' ?_
  rw [List.mem_append, List.mem_singleton]
  refine (or_iff_left ?_).symm
  rintro rfl
  exact he rfl

theorem Given.set {α : Type} {name : List Char} {R : List Char → α → Prop} {entries : List Entry} {v : List Char} {a : α}
    (hname : name ∉ entries.map Entry.name) (hv : ∀ b, R v b ↔ b = a) : Given name R (entries ++ [⟨name, v⟩]) (some a) := by
  intro b
  constructor
  · rintro ⟨⟩
    exact ⟨v, by simp, (hv a).2 rfl⟩
  · rintro ⟨w, hw, hb⟩
    rcases List.mem_append.1 hw with hw | hw
    · exact absurd (List.mem_map_of_mem hw) hname
    · obtain rfl : w = v := congrArg Entry.value (List.mem_singleton.1 hw)
      rw [(hv b).1 hb]

/-- What the variables hold after some entries. -/
structure Reading (entries : List Entry) (s : Settings) : Prop where
  seen : ∀ n, n ∈ s.seen ↔ n ∈ entries.map Entry.name
  domain : Given "domain".toList (fun v d => validateDnsName "domain" v = .ok d) entries s.domain
  selector : Given "selector".toList (fun v d => validateDnsName "selector" v = .ok d) entries s.selector
  privateKey : Given "private_key".toList (fun v p => p = v) entries s.privateKey
  listen : Given "listen".toList (fun v l => parseListen v = .ok l) entries s.listen
  /-- the setting was read as false -/
  requireFips : Given "require_fips".toList (fun v _ => v = "false".toList) entries
    (if s.requireFips then none else some ())

theorem reading_nil : Reading [] {} := by
  constructor <;> intro a <;> simp

/-- **The step**: an entry with a new name. -/
theorem Reading.sets {entries : List Entry} {s s' : Settings} (h : Reading entries s) {e : Entry} (hnew : e.name ∉ s.seen)
    (hsets : Sets { s with seen := e.name :: s.seen } e s') : Reading (entries ++ [e]) s' := by
  have hname : e.name ∉ entries.map Entry.name := (h.seen e.name).not.1 hnew
  have hseen : ∀ n, n ∈ e.name :: s.seen ↔ n ∈ (entries ++ [e]).map Entry.name := by
    intro n
    rw [List.mem_cons, h.seen n, List.map_append, List.mem_append, List.map_singleton, List.mem_singleton]
    exact or_comm
  cases hsets with
  | domain hd =>
    exact ⟨hseen, .set hname fun b => by rw [hd, Except.ok.injEq, eq_comm], h.selector.other (by simp),
      h.privateKey.other (by simp), h.listen.other (by simp), h.requireFips.other (by simp)⟩
  | selector hd =>
    exact ⟨hseen, h.domain.other (by simp), .set hname fun b => by rw [hd, Except.ok.injEq, eq_comm],
      h.privateKey.other (by simp), h.listen.other (by simp), h.requireFips.other (by simp)⟩
  | privateKey =>
    exact ⟨hseen, h.domain.other (by simp), h.selector.other (by simp), .set hname fun b => Iff.rfl,
      h.listen.other (by simp), h.requireFips.other (by simp)⟩
  | listen hl =>
    exact ⟨hseen, h.domain.other (by simp), h.selector.other (by simp), h.privateKey.other (by simp),
      .set hname fun b => by rw [hl, Except.ok.injEq, eq_comm], h.requireFips.other (by simp)⟩
  | fipsTrue =>
    refine ⟨hseen, h.domain.other (by simp), h.selector.other (by simp), h.privateKey.other (by simp),
      h.listen.other (by simp), fun a => ?_⟩
    simp only [if_true, reduceCtorEq, false_iff, not_exists, not_and]
    rintro v hv rfl
    rcases List.mem_append.1 hv with hv | hv
    · exact hname (List.mem_map.2 ⟨_, hv, rfl⟩)
    · exact absurd (congrArg Entry.value (List.mem_singleton.1 hv)) (by simp)
  | fipsFalse =>
    refine ⟨hseen, h.domain.other (by simp), h.selector.other (by simp), h.privateKey.other (by simp),
      h.listen.other (by simp), .set hname fun b => ?_⟩
    simp

theorem significant_cons (raw : List Char) (raws : List (List Char)) :
    significant (raw :: raws) = if counts (trim raw) then trim raw :: significant raws else significant raws := by
  rw [significant, List.map_cons, List.filter_cons]
  rfl

/-- **The run**: what an accepted text was read as. -/
theorem readLines_sound {raws : List (List Char)} : ∀ {index : Nat} {entries : List Entry} {s s' : Settings},
    Reading entries s → (entries.map Entry.name).Nodup → readLines s index raws = .ok s' →
    ∃ more, List.Forall₂ Entry.Written (significant raws) more ∧ (∀ e ∈ more, e.value ≠ [] ∧ e.Ok) ∧
      ((entries ++ more).map Entry.name).Nodup ∧ Reading (entries ++ more) s' := by
  induction raws with
  | nil =>
    rintro index entries s s' hreading hnodup ⟨⟩
    exact ⟨[], .nil, by simp, by simpa using hnodup, by simpa using hreading⟩
  | cons raw raws ih =>
    intro index entries s s' hreading hnodup h
    obtain ⟨s₁, hline, hrest⟩ := bind_eq_ok.1 h
    rw [significant_cons]
    cases hcounts : counts (trim raw) with
    | false =>
      rw [readLine_skipped hcounts, Except.ok.injEq] at hline
      subst hline
      exact ih hreading hnodup hrest
    | true =>
      obtain ⟨e, hwritten, hvalue, hnew, hsets⟩ := (readLine_counts hcounts).1 hline
      have hname : e.name ∉ entries.map Entry.name := (hreading.seen e.name).not.1 hnew
      have hnodup' : ((entries ++ [e]).map Entry.name).Nodup := by
        rw [List.map_append, List.map_singleton]
        refine List.nodup_append.2 ⟨hnodup, by simp, fun n hn m hm => ?_⟩
        rw [List.mem_singleton.1 hm]
        rintro rfl
        exact hname hn
      obtain ⟨more, hmore, hvalues, hnames, hfinal⟩ := ih (hreading.sets hnew hsets) hnodup' hrest
      rw [List.append_assoc] at hnames hfinal
      refine ⟨e :: more, .cons hwritten hmore, fun x hx => ?_, hnames, hfinal⟩
      rcases List.mem_cons.1 hx with rfl | hx
      · exact ⟨hvalue, hsets.ok⟩
      · exact hvalues x hx

/-- A text of the grammar is accepted. -/
theorem readLines_complete {raws : List (List Char)} : ∀ {index : Nat} {entries more : List Entry} {s : Settings},
    Reading entries s → List.Forall₂ Entry.Written (significant raws) more → (∀ e ∈ more, e.value ≠ [] ∧ e.Ok) →
    ((entries ++ more).map Entry.name).Nodup → ∃ s', readLines s index raws = .ok s' := by
  induction raws with
  | nil => exact fun _ _ _ _ => ⟨_, rfl⟩
  | cons raw raws ih =>
    intro index entries more s hreading hmore hvalues hnames
    rw [significant_cons] at hmore
    cases hcounts : counts (trim raw) with
    | false =>
      rw [hcounts] at hmore
      obtain ⟨s', hs'⟩ : ∃ s', readLines s (index + 1) raws = .ok s' := ih hreading hmore hvalues hnames
      exact ⟨s', bind_eq_ok.2 ⟨s, readLine_skipped hcounts, hs'⟩⟩
    | true =>
      rw [hcounts, if_pos rfl] at hmore
      cases hmore with
      | @cons _ e _ more hwritten hmore =>
        have hnew : e.name ∉ s.seen := by
          rw [hreading.seen]
          rw [List.map_append, List.map_cons] at hnames
          exact fun hmem => (List.nodup_append.1 hnames).2.2 _ hmem _ List.mem_cons_self rfl
        obtain ⟨hvalue, hok⟩ := hvalues e List.mem_cons_self
        obtain ⟨s₁, hsets⟩ := hok.sets { s with seen := e.name :: s.seen }
        obtain ⟨s', hs'⟩ : ∃ s', readLines s₁ (index + 1) raws = .ok s' := ih (hreading.sets hnew hsets) hmore
          (fun x hx => hvalues x (List.mem_cons_of_mem _ hx)) (by rwa [List.append_assoc])
        exact ⟨s', bind_eq_ok.2 ⟨s₁, (readLine_counts hcounts).2 ⟨e, hwritten, hvalue, hnew, hsets⟩, hs'⟩⟩

/-! ## The grammar -/

/-- A line is an entry in one way. -/
theorem Entry.Written.unique {line : List Char} {e e' : Entry} (h : e.Written line) (h' : e'.Written line) : e = e' := by
  obtain ⟨l, r, rfl, hl, rfl⟩ := h
  obtain ⟨l', r', hline, hl', rfl⟩ := h'
  obtain ⟨rfl, rfl⟩ := append_cons_inj hl hl' hline
  rfl

theorem written_unique {ls : List (List Char)} {entries entries' : List Entry} (h : List.Forall₂ Entry.Written ls entries)
    (h' : List.Forall₂ Entry.Written ls entries') : entries = entries' := by
  induction h generalizing entries' with
  | nil => cases h'; rfl
  | cons hline _ ih =>
    cases h' with
    | cons hline' hrest => rw [hline.unique hline', ih hrest]

/-- One value for each name. -/
theorem WellFormed.value_unique {raws : List (List Char)} {entries : List Entry} (h : WellFormed raws entries)
    {n v w : List Char} (hv : ⟨n, v⟩ ∈ entries) (hw : ⟨n, w⟩ ∈ entries) : v = w :=
  congrArg Entry.value (List.inj_on_of_nodup_map h.names hv hw rfl)

theorem WellFormed.fips_value {raws : List (List Char)} {entries : List Entry} (h : WellFormed raws entries)
    {v : List Char} (hv : ⟨"require_fips".toList, v⟩ ∈ entries) : v = "true".toList ∨ v = "false".toList := by
  have hok := (h.values _ hv).2
  generalize hname : "require_fips".toList = name at hok
  cases hok with
  | domain => exact absurd hname (by decide)
  | selector => exact absurd hname (by decide)
  | privateKey => exact absurd hname (by decide)
  | listen => exact absurd hname (by decide)
  | requireFips hvalue => exact hvalue

/-- The flag is the value of its setting, and true without one. -/
theorem WellFormed.fips {raws : List (List Char)} {entries : List Entry} {s : Settings} (h : WellFormed raws entries)
    (hreading : Reading entries s) :
    (∀ v, ⟨"require_fips".toList, v⟩ ∈ entries → v = (if s.requireFips then "true".toList else "false".toList)) ∧
      ("require_fips".toList ∉ entries.map Entry.name → s.requireFips = true) := by
  have hfalse := hreading.requireFips ()
  cases hs : s.requireFips with
  | true =>
    rw [hs] at hfalse
    refine ⟨fun v hv => (h.fips_value hv).resolve_right ?_, fun _ => rfl⟩
    rintro rfl
    exact absurd (hfalse.2 ⟨_, hv, rfl⟩) (by simp)
  | false =>
    rw [hs] at hfalse
    obtain ⟨w, hw, rfl⟩ := hfalse.1 rfl
    exact ⟨fun v hv => h.value_unique hv hw, fun habsent => absurd (List.mem_map.2 ⟨_, hw, rfl⟩) habsent⟩

section
variable {Key : Type} {files : Files} {ssl : OpenSsl Key} {keys : KeyFormat Key}

theorem finishConfig_ok {s : Settings} {config : RuntimeConfig Key} :
    finishConfig files ssl keys s = .ok config ↔
      s.domain = some config.domain ∧ s.selector = some config.selector ∧
      (∃ v, s.privateKey = some v ∧ v.head? = some '/' ∧ config.privateKey = utf8 v) ∧ s.listen = some config.listen ∧
      s.requireFips = config.requireFips ∧
      ∃ bytes, files.read config.privateKey = .ok bytes ∧ keys.privateKeyFromPem bytes = .ok config.key ∧
        validateKey ssl keys config.key = .ok () := by
  simp only [finishConfig, bind_eq_ok, okOr_eq_ok]
  constructor
  · rintro ⟨domain, hdomain, selector, hselector, v, hv, h⟩
    split at h
    · cases h
    rename_i hroot
    simp only [bind_eq_ok, okOr_eq_ok, mapError_eq_ok] at h
    obtain ⟨listen, hlisten, bytes, hbytes, key, hkey, ⟨⟩, hvalid, ⟨⟩⟩ := h
    exact ⟨hdomain, hselector, ⟨v, hv, not_not.1 hroot, rfl⟩, hlisten, rfl, bytes, hbytes, hkey, hvalid⟩
  · rintro ⟨hdomain, hselector, ⟨v, hv, hroot, hpath⟩, hlisten, hfips, bytes, hbytes, hkey, hvalid⟩
    refine ⟨_, hdomain, _, hselector, v, hv, ?_⟩
    rw [if_neg (not_not.2 hroot)]
    simp only [bind_eq_ok, okOr_eq_ok, mapError_eq_ok]
    refine ⟨_, hlisten, bytes, by rwa [hpath] at hbytes, _, hkey, (), hvalid, ?_⟩
    rw [← hpath, hfips]
    rfl

/-- After the entries of a file, the checks and the record are what the entries configure. -/
theorem finishConfig_configures {raws : List (List Char)} {entries : List Entry} (h : WellFormed raws entries) {s : Settings}
    (hreading : Reading entries s) {config : RuntimeConfig Key} :
    finishConfig files ssl keys s = .ok config ↔ Configures files ssl keys entries config := by
  have hfips := h.fips hreading
  rw [finishConfig_ok]
  constructor
  · rintro ⟨hdomain, hselector, ⟨v, hv, hroot, hpath⟩, hlisten, hflag, hkey⟩
    obtain ⟨_, hmem, rfl⟩ := (hreading.privateKey v).1 hv
    rw [hflag] at hfips
    exact ⟨(hreading.domain _).1 hdomain, (hreading.selector _).1 hselector, ⟨v, hmem, hroot, hpath⟩,
      (hreading.listen _).1 hlisten, hfips.1, hfips.2, hkey⟩
  · intro hc
    obtain ⟨v, hmem, hroot, hpath⟩ := hc.privateKey
    refine ⟨(hreading.domain _).2 hc.domain, (hreading.selector _).2 hc.selector,
      ⟨v, (hreading.privateKey v).2 ⟨v, hmem, rfl⟩, hroot, hpath⟩, (hreading.listen _).2 hc.listen, ?_, hc.key⟩
    by_cases habsent : "require_fips".toList ∈ entries.map Entry.name
    · obtain ⟨⟨_, w⟩, hw, rfl⟩ := List.mem_map.1 habsent
      have hsame := (hfips.1 w hw).symm.trans (hc.requireFips w hw)
      cases hs : s.requireFips <;> cases hb : config.requireFips <;> rw [hs, hb] at hsame <;> first | rfl | exact absurd hsame (by decide)
    · rw [hfips.2 habsent, hc.fipsAbsent habsent]

theorem loadInput_iff {input : List Char} {config : RuntimeConfig Key} :
    loadInput files ssl keys input = .ok config ↔
      ∃ entries, WellFormed (lines input) entries ∧ Configures files ssl keys entries config := by
  rw [loadInput, bind_eq_ok]
  constructor
  · rintro ⟨s, hs, hconfig⟩
    obtain ⟨entries, hwritten, hvalues, hnames, hreading⟩ := readLines_sound reading_nil (by simp) hs
    have hformed : WellFormed (lines input) entries := ⟨hwritten, hvalues, hnames⟩
    exact ⟨entries, hformed, (finishConfig_configures hformed hreading).1 hconfig⟩
  · rintro ⟨entries, hformed, hconfigures⟩
    obtain ⟨s, hs⟩ : ∃ s, readLines {} 0 (lines input) = .ok s :=
      readLines_complete reading_nil hformed.written hformed.values hformed.names
    obtain ⟨entries', hwritten, -, -, hreading⟩ := readLines_sound reading_nil (by simp) hs
    obtain rfl := written_unique hformed.written hwritten
    exact ⟨s, hs, (finishConfig_configures hformed hreading).2 hconfigures⟩

theorem load_iff {path : Bytes} {config : RuntimeConfig Key} :
    load files ssl keys path = .ok config ↔ ∃ input entries, files.readToString path = .ok input ∧
      WellFormed (lines input) entries ∧ Configures files ssl keys entries config := by
  rw [load, bind_eq_ok]
  constructor
  · rintro ⟨input, hinput, h⟩
    obtain ⟨entries, hformed, hconfigures⟩ := loadInput_iff.1 h
    exact ⟨input, entries, mapError_eq_ok.1 hinput, hformed, hconfigures⟩
  · rintro ⟨input, entries, hinput, hformed, hconfigures⟩
    exact ⟨input, mapError_eq_ok.2 hinput, loadInput_iff.2 ⟨entries, hformed, hconfigures⟩⟩

/-! ## The order of the lines -/

theorem WellFormed.perm {raws raws' : List (List Char)} {entries : List Entry} (h : WellFormed raws entries)
    (hperm : (significant raws').Perm (significant raws)) : ∃ entries', WellFormed raws' entries' ∧ entries'.Perm entries := by
  obtain ⟨entries', hwritten, hentries⟩ := List.perm_comp_forall₂ hperm h.written
  exact ⟨entries', ⟨hwritten, fun e he => h.values e (hentries.mem_iff.1 he), (hentries.map _).nodup_iff.2 h.names⟩, hentries⟩

theorem Configures.perm {entries entries' : List Entry} {config : RuntimeConfig Key}
    (h : Configures files ssl keys entries config) (hperm : entries'.Perm entries) :
    Configures files ssl keys entries' config := by
  have hmem : ∀ e, e ∈ entries' ↔ e ∈ entries := fun e => hperm.mem_iff
  obtain ⟨hdomain, hselector, hpath, hlisten, hfips, habsent, hkey⟩ := h
  exact ⟨by simpa only [hmem] using hdomain, by simpa only [hmem] using hselector, by simpa only [hmem] using hpath,
    by simpa only [hmem] using hlisten, by simpa only [hmem] using hfips,
    fun hno => habsent fun hin => hno ((hperm.map _).mem_iff.2 hin), hkey⟩

theorem loadInput_perm {input input' : List Char} (hperm : (significant (lines input')).Perm (significant (lines input)))
    {config : RuntimeConfig Key} (h : loadInput files ssl keys input = .ok config) :
    loadInput files ssl keys input' = .ok config := by
  obtain ⟨entries, hformed, hconfigures⟩ := loadInput_iff.1 h
  obtain ⟨entries', hformed', hentries⟩ := hformed.perm hperm
  exact loadInput_iff.2 ⟨entries', hformed', hconfigures.perm hentries⟩

/-- **The grammar is what is accepted.** A file loads as `config` exactly when its lines are
well-formed entries that configure `config`; lines in another order, and blank lines and comments,
change nothing. -/
theorem load_ok (files : Files) (ssl : OpenSsl Key) (keys : KeyFormat Key) :
    (∀ path config, load files ssl keys path = .ok config ↔
      ∃ input entries, files.readToString path = .ok input ∧ WellFormed (lines input) entries ∧
        Configures files ssl keys entries config) ∧
    ∀ input input', (significant (lines input)).Perm (significant (lines input')) →
      ∀ config, loadInput files ssl keys input = .ok config ↔ loadInput files ssl keys input' = .ok config :=
  ⟨fun _ _ => load_iff, fun _ _ hperm _ => ⟨loadInput_perm hperm.symm, loadInput_perm hperm⟩⟩

end

end DkimLite
