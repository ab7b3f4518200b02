import Mathlib.Logic.Relation
import DkimLite.Binding

/-!
# Which header fields a signature depends on

`sign` (`src/dkim.rs:150-210`) goes through the table of names and takes the bottom-most field of
each. `sign_congr` is what follows: two messages that answer every name of the table with the
same canonical field, and whose From fields name the same domains, are signed alike, whatever
else they hold. `Rearrange` lists what a relay may do to a message: reorder fields of different
names, add fields that are not in the table, write a name in other letters, and change a field
that a later one of its name hides.
-/

namespace DkimLite
open Rust Text

/-! ## What `sign` looks at -/

section
variable {Key : Type} {headers headers' : List Header}

theorem canonicalOf_eq_getLast? (headers : List Header) (name : Bytes) :
    canonicalOf headers name = ((headers.filter (·.is name)).map fun h => relaxedField h.name h.value).getLast? := by
  rw [canonicalOf, bottomMost, List.getLast?_map, List.getLast?_filter]

theorem hashHeaders_congr (ssl : OpenSsl Key) (key : Key) : ∀ {hs hs' : List Header} (hashed : Bytes),
    (hs.map fun h => relaxedField h.name h.value) = (hs'.map fun h => relaxedField h.name h.value) →
      hashHeaders ssl key hashed hs = hashHeaders ssl key hashed hs'
  | [], [], _, _ => rfl
  | [], _ :: _, _, h => by simp at h
  | _ :: _, [], _, h => by simp at h
  | a :: hs, b :: hs', hashed, h => by
    obtain ⟨hhead, hrest⟩ := List.cons.inj h
    have hab : relaxedField a.name a.value = relaxedField b.name b.value := hhead
    rw [hashHeaders, hashHeaders, canonicalizeHeader_eq, canonicalizeHeader_eq, Exec.ok_bind, Exec.ok_bind, hab]
    congr 1
    funext _
    exact hashHeaders_congr ssl key _ hrest

theorem hNamesOf_congr (h : ∀ name ∈ signedHeaders, canonicalOf headers name = canonicalOf headers' name) :
    hNamesOf headers = hNamesOf headers' := by
  have hsome : ∀ name ∈ signedHeaders, (bottomMost headers name).isSome = (bottomMost headers' name).isSome := by
    intro name hname
    have := congrArg Option.isSome (h name hname)
    simpa only [canonicalOf, Option.isSome_map] using this
  unfold hNamesOf
  refine List.flatMap_congr fun name hname => ?_
  rw [hsome name hname]

theorem signSelected_congr (env : Env Key) (config : RuntimeConfig Key) (bodyHash : Digest)
    (h : ∀ name ∈ signedHeaders, canonicalOf headers name = canonicalOf headers' name) :
    signSelected env config headers bodyHash = signSelected env config headers' bodyHash := by
  have hselected : ∀ hs : List Header, ((signedHeaders.filterMap (bottomMost hs)).map fun h => relaxedField h.name h.value) =
      signedHeaders.filterMap (canonicalOf hs) := fun hs => List.map_filterMap
  have hhash : ∀ hashed, hashHeaders env.ssl config.key hashed (signedHeaders.filterMap (bottomMost headers)) =
      hashHeaders env.ssl config.key hashed (signedHeaders.filterMap (bottomMost headers')) := by
    intro hashed
    refine hashHeaders_congr env.ssl config.key hashed ?_
    rw [hselected, hselected]
    exact List.filterMap_congr h
  simp only [signSelected, select_eq, hNamesOf_congr h, hhash]

/-- **The domains of the From fields and the bottom-most field of each name decide everything.** -/
theorem sign_congr (env : Env Key) (config : RuntimeConfig Key) (bodyHash : Digest)
    (hfrom : ((headers.filter (·.is fromName)).map fun h => fromDomain h.value) =
      ((headers'.filter (·.is fromName)).map fun h => fromDomain h.value))
    (hlast : ∀ name ∈ signedHeaders, canonicalOf headers name = canonicalOf headers' name) :
    sign env config headers bodyHash = sign env config headers' bodyHash := by
  have hsigned := signSelected_congr env config bodyHash hlast
  match hf : headers.filter (·.is fromName), hf' : headers'.filter (·.is fromName) with
  | [], [] => simp [sign, hf, hf']
  | [f], [f'] =>
    rw [hf, hf'] at hfrom
    have hdomain : fromDomain f.value = fromDomain f'.value := by simpa using hfrom
    simp [sign, hf, hf', hdomain, hsigned]
  | _ :: _ :: _, _ :: _ :: _ => simp [sign, hf, hf']
  | [], _ :: _ => rw [hf, hf'] at hfrom; simp at hfrom
  | _ :: _, [] => rw [hf, hf'] at hfrom; simp at hfrom
  | [_], _ :: _ :: _ => rw [hf, hf'] at hfrom; simp at hfrom
  | _ :: _ :: _, [_] => rw [hf, hf'] at hfrom; simp at hfrom

/-! ## Rearranging a message -/

/-- One change a relay may make. -/
inductive Rearrange : List Header → List Header → Prop
  | reorder {pre post : List Header} {a b : Header} : lower a.name ≠ lower b.name →
      Rearrange (pre ++ a :: b :: post) (pre ++ b :: a :: post)
  | unlisted {pre post : List Header} {a : Header} : (∀ name ∈ signedHeaders, a.is name = false) →
      Rearrange (pre ++ post) (pre ++ a :: post)
  | recase {pre post : List Header} {a b : Header} : lower a.name = lower b.name → a.value = b.value →
      Rearrange (pre ++ a :: post) (pre ++ b :: post)
  | hidden {pre post : List Header} {a b c : Header} : lower a.name = lower b.name → c ∈ post →
      lower c.name = lower b.name → b.is fromName = false → Rearrange (pre ++ a :: post) (pre ++ b :: post)

theorem Header.is_congr {a b : Header} (h : lower a.name = lower b.name) (name : Bytes) : a.is name = b.is name := by
  rw [Header.is, Header.is, Bool.eq_iff_iff, eqIgnoreAsciiCase_iff, eqIgnoreAsciiCase_iff, h]

/-- Two fields of different names cannot both answer a name. -/
theorem Header.is_of_ne {a b : Header} (h : lower a.name ≠ lower b.name) {name : Bytes} (ha : a.is name = true) :
    b.is name = false := by
  rw [Bool.eq_false_iff]
  intro hb
  exact h ((eqIgnoreAsciiCase_iff.1 ha).trans (eqIgnoreAsciiCase_iff.1 hb).symm)

theorem filter_reorder {a b : Header} (h : lower a.name ≠ lower b.name) (pre post : List Header) (name : Bytes) :
    (pre ++ a :: b :: post).filter (·.is name) = (pre ++ b :: a :: post).filter (·.is name) := by
  cases ha : a.is name with
  | true => simp [ha, Header.is_of_ne h ha]
  | false => cases hb : b.is name <;> simp [ha, hb]

/-- The From fields keep their values, and every name its last canonical field. -/
theorem Rearrange.view (h : Rearrange headers headers') :
    ((headers.filter (·.is fromName)).map fun h => fromDomain h.value) =
        ((headers'.filter (·.is fromName)).map fun h => fromDomain h.value) ∧
      ∀ name ∈ signedHeaders, canonicalOf headers name = canonicalOf headers' name := by
  cases h with
  | reorder hne =>
    refine ⟨by rw [filter_reorder hne], fun name _ => ?_⟩
    rw [canonicalOf_eq_getLast?, canonicalOf_eq_getLast?, filter_reorder hne]
  | @unlisted pre post a hun =>
    have hfilter : ∀ name ∈ signedHeaders, (pre ++ post).filter (·.is name) = (pre ++ a :: post).filter (·.is name) := by
      intro name hname
      simp [hun name hname]
    refine ⟨by rw [hfilter fromName (by simp [signedHeaders])], fun name hname => ?_⟩
    rw [canonicalOf_eq_getLast?, canonicalOf_eq_getLast?, hfilter name hname]
  | @recase pre post a b hname hvalue =>
    refine ⟨?_, fun name _ => ?_⟩
    · simp only [List.filter_append, List.filter_cons, Header.is_congr hname, List.map_append]
      split <;> simp [hvalue]
    · rw [canonicalOf_eq_getLast?, canonicalOf_eq_getLast?]
      have hfield : relaxedField a.name a.value = relaxedField b.name b.value := by
        rw [relaxedField, relaxedField, hname, hvalue]
      simp only [List.filter_append, List.filter_cons, Header.is_congr hname, List.map_append]
      split <;> simp [hfield]
  | @hidden pre post a b c hname hc hcname hb =>
    have ha : a.is fromName = false := by rw [Header.is_congr hname, hb]
    refine ⟨by simp [ha, hb], fun name _ => ?_⟩
    rw [canonicalOf_eq_getLast?, canonicalOf_eq_getLast?]
    cases hbn : b.is name with
    | false => simp [Header.is_congr hname, hbn]
    | true =>
      -- the field below keeps `a` and `b` from being the last
      have hmem : c ∈ post.filter (·.is name) := List.mem_filter.2 ⟨hc, by rw [Header.is_congr hcname, hbn]⟩
      have hcut : ∀ x : Header, x.is name = true →
          (((pre ++ x :: post).filter (·.is name)).map fun h => relaxedField h.name h.value).getLast? =
            ((post.filter (·.is name)).map fun h => relaxedField h.name h.value).getLast? := by
        intro x hx
        rw [← List.singleton_append, ← List.append_assoc, List.filter_append, List.map_append,
          List.getLast?_append_of_ne_nil]
        exact List.ne_nil_of_mem (List.mem_map_of_mem hmem)
      rw [hcut a (by rw [Header.is_congr hname, hbn]), hcut b hbn]

/-- **Only the last field of each listed name counts.** Two messages with one From field each, of
the same `from_domain` result, whose listed names have the same bottom-most fields up to
canonicalization, are signed alike: the same bytes are hashed and the same h= is written. So is
a message after any number of rearrangements. -/
theorem last_fields_decide (env : Env Key) (config : RuntimeConfig Key) (bodyHash : Digest) (headers headers' : List Header) :
    ((∃ f f', headers.filter (·.is fromName) = [f] ∧ headers'.filter (·.is fromName) = [f'] ∧
        fromDomain f.value = fromDomain f'.value) →
      (∀ name ∈ signedHeaders, canonicalOf headers name = canonicalOf headers' name) →
        sign env config headers bodyHash = sign env config headers' bodyHash) ∧
    (Relation.ReflTransGen Rearrange headers headers' →
      sign env config headers bodyHash = sign env config headers' bodyHash) := by
  constructor
  · rintro ⟨f, f', hf, hf', hdomain⟩ hlast
    exact sign_congr env config bodyHash (by rw [hf, hf']; simp [hdomain]) hlast
  · intro h
    induction h with
    | refl => rfl
    | tail _ hstep ih =>
      obtain ⟨hfrom, hlast⟩ := hstep.view
      rw [ih]
      exact sign_congr env config bodyHash hfrom hlast

end

def exampleTo : List Header :=
  [⟨ascii "To", ascii "b@example.net", by decide, by decide⟩, ⟨fromName, ascii "a@example.com", fromName_ok, by decide⟩]

/-- The same To field below another one, in other letters and with white space at its end. -/
def exampleHidden : List Header :=
  [⟨ascii "To", ascii "c@example.net", by decide, by decide⟩, ⟨ascii "FROM", ascii " a@example.com", by decide, by decide⟩,
    ⟨ascii "TO", ascii "b@example.net \t", by decide, by decide⟩]

/-- A field that is not listed, on top. -/
def exampleAbove : Header := ⟨ascii "X-Seen", ascii "once", by decide, by decide⟩

theorem last_fields_decide_hidden : ∃ signed, sign exampleEnv exampleConfig exampleTo emptyDigest = .ok signed ∧
    sign exampleEnv exampleConfig exampleHidden emptyDigest = .ok signed ∧
      sign exampleEnv exampleConfig (exampleAbove :: exampleHidden) emptyDigest = .ok signed := by
  obtain ⟨signed, hsigned, -⟩ := Exec.okAnd_eq_true.1
    (by decide +kernel : (sign exampleEnv exampleConfig exampleTo emptyDigest).okAnd (fun _ => true) = true)
  have hlast : ∀ name ∈ signedHeaders, canonicalOf exampleTo name = canonicalOf exampleHidden name := by decide +kernel
  have hhidden := (last_fields_decide exampleEnv exampleConfig emptyDigest exampleTo exampleHidden).1
    ⟨_, _, rfl, rfl, by decide +kernel⟩ hlast
  have hunlisted : ∀ name ∈ signedHeaders, exampleAbove.is name = false := by decide
  have habove := (last_fields_decide exampleEnv exampleConfig emptyDigest exampleHidden (exampleAbove :: exampleHidden)).2
    (.single (@Rearrange.unlisted [] exampleHidden exampleAbove hunlisted))
  exact ⟨signed, hsigned, hhidden ▸ hsigned, habove ▸ hhidden ▸ hsigned⟩

end DkimLite
