import DkimLite.ConfigGrammar
import DkimLite.Keygen

/-!
# The command line (`src/main.rs:109-204`)

| here | there |
| --- | --- |
| `Command` | the enum (`main.rs:109-117`) |
| `parseU32` | `value.parse::<u32>()` |
| `GenerateArgs`, `GenerateArgs.take`, `GenerateArgs.finish` | the variables of `parse_generate_args` (`:157-161`), its `match option` (`:172-193`), and what it returns (`:196-203`) |
| `parseGenerateArgs`, `parseServeArgs`, `parseArgs` | `parse_generate_args` (`:156-204`), the loop of `parse_args` (`:132-149`), and `parse_args` (`:125-154`) |

`Spells` is the grammar: the options of `generate-key` are known, distinct and in any order, each with its
value, and those of the daemon stand at most once. `command_line` says that the two loops accept it and
nothing else. A word where an option is due is an option, and the one after it its value, whatever they
look like.
-/

namespace DkimLite.Main
open Rust Text

inductive Command where
  | serve (configPath : Bytes) (checkOnly : Bool)
  | generateKey (options : GenerateOptions)
  | version
  | help

/-- `str::parse::<u32>`: digits, with at most one `+` in front. -/
def parseU32 (s : List Char) : Option UInt32 :=
  let digits := if s.head? = some '+' then s.tail else s
  if digits.isEmpty || !digits.all Char.isDigit then none
  else
    let n := digits.foldl (fun n c => n * 10 + (c.toNat - '0'.toNat)) 0
    if n < 2 ^ 32 then some (UInt32.ofNat n) else none

/-! ## `generate-key` -/

structure GenerateArgs where
  domain : Option (List Char) := none
  selector : Option (List Char) := none
  privateKey : Option Bytes := none
  bits : Option UInt32 := none
  requireFips : Option Bool := none

def isHelp (w : List Char) : Bool := w == "--help".toList || w == "-h".toList

def generateOptions : List (List Char) :=
  ["--domain".toList, "--selector".toList, "--private-key".toList, "--bits".toList, "--require-fips".toList]

namespace GenerateArgs

def take (a : GenerateArgs) (option value : List Char) : Except String GenerateArgs :=
  if option = "--domain".toList ∧ a.domain = none then return { a with domain := some value }
  else if option = "--selector".toList ∧ a.selector = none then return { a with selector := some value }
  else if option = "--private-key".toList ∧ a.privateKey = none then return { a with privateKey := some (utf8 value) }
  else if option = "--bits".toList ∧ a.bits = none then do
    let bits ← okOr "--bits requires an integer" (parseU32 value)
    return { a with bits := some bits }
  else if option = "--require-fips".toList ∧ a.requireFips = none then
    if value = "true".toList then return { a with requireFips := some true }
    else if value = "false".toList then return { a with requireFips := some false }
    else throw "--require-fips must be true or false"
  else if generateOptions.contains option then throw ("duplicate " ++ String.ofList option)
  else throw ("unknown generate-key argument: " ++ String.ofList option)

def finish (a : GenerateArgs) : Except String Command := do
  let domain ← okOr "generate-key requires --domain" a.domain
  let selector ← okOr "generate-key requires --selector" a.selector
  let privateKey ← okOr "generate-key requires --private-key" a.privateKey
  return .generateKey { domain, selector, privateKey, bits := a.bits.getD 2048, requireFips := a.requireFips.getD true }

end GenerateArgs

def parseGenerateArgs (a : GenerateArgs) : List (List Char) → Except String Command
  | [] => a.finish
  | [option] => if isHelp option then return .help else throw (String.ofList option ++ " requires a value")
  | option :: value :: rest =>
    if isHelp option then return .help
    else do
      let a ← a.take option value
      parseGenerateArgs a rest

/-! ## The daemon -/

def defaultConfig : List Char := "/etc/dkim-lite/dkim-lite.conf".toList

/-- `alone`: `args.len() == 2` -/
def parseServeArgs (alone : Bool) (config : Option (List Char)) (check : Bool) : List (List Char) → Except String Command
  | [] => return .serve (utf8 (config.getD defaultConfig)) check
  | arg :: rest =>
    if arg = "--version".toList ∧ alone then return .version
    else if isHelp arg ∧ alone then return .help
    else if arg = "--check-config".toList then
      if check then throw "duplicate --check-config" else parseServeArgs alone config true rest
    else if arg = "--config".toList then
      if config = none then
        match rest with
        | [] => throw "--config requires a path"
        | value :: rest => parseServeArgs alone (some value) check rest
      else throw "duplicate --config"
    else throw ("unknown argument: " ++ String.ofList arg)

/-- The first of the arguments is the name of the program. -/
def parseArgs (args : List (List Char)) : Except String Command :=
  if args[1]? = some "generate-key".toList then parseGenerateArgs {} (args.drop 2)
  else parseServeArgs (args.length == 2) none false (args.drop 1)

/-! ## The grammar -/

def boolText (b : Bool) : List Char := if b then "true".toList else "false".toList

/-- The name is an option's, and the value is one of that option. -/
inductive Valid : Entry → Prop
  | domain {v : List Char} : Valid ⟨"--domain".toList, v⟩
  | selector {v : List Char} : Valid ⟨"--selector".toList, v⟩
  | privateKey {v : List Char} : Valid ⟨"--private-key".toList, v⟩
  | bits {v : List Char} {n : UInt32} (h : parseU32 v = some n) : Valid ⟨"--bits".toList, v⟩
  | requireFips (b : Bool) : Valid ⟨"--require-fips".toList, boolText b⟩

/-- Distinct options, each with its value. -/
structure Options (entries : List Entry) : Prop where
  valid : ∀ e ∈ entries, Valid e
  names : (entries.map Entry.name).Nodup

def words (entries : List Entry) : List (List Char) := entries.flatMap fun e => [e.name, e.value]

/-- What the options ask for. -/
structure AsksFor (entries : List Entry) (options : GenerateOptions) : Prop where
  domain : ⟨"--domain".toList, options.domain⟩ ∈ entries
  selector : ⟨"--selector".toList, options.selector⟩ ∈ entries
  privateKey : ∃ v, ⟨"--private-key".toList, v⟩ ∈ entries ∧ options.privateKey = utf8 v
  bits : ∀ v, ⟨"--bits".toList, v⟩ ∈ entries → parseU32 v = some options.bits
  requireFips : ∀ v, ⟨"--require-fips".toList, v⟩ ∈ entries → v = boolText options.requireFips
  /-- the defaults -/
  bitsAbsent : "--bits".toList ∉ entries.map Entry.name → options.bits = 2048
  fipsAbsent : "--require-fips".toList ∉ entries.map Entry.name → options.requireFips = true

/-- The words after the name of the program, and the command they are. -/
inductive Spells : List (List Char) → Command → Prop
  | start : Spells [] (.serve (utf8 defaultConfig) false)
  | check : Spells ["--check-config".toList] (.serve (utf8 defaultConfig) true)
  | config (path : List Char) : Spells ["--config".toList, path] (.serve (utf8 path) false)
  | configCheck (path : List Char) : Spells ["--config".toList, path, "--check-config".toList] (.serve (utf8 path) true)
  | checkConfig (path : List Char) : Spells ["--check-config".toList, "--config".toList, path] (.serve (utf8 path) true)
  | version : Spells ["--version".toList] .version
  | help {w : List Char} (h : isHelp w = true) : Spells [w] .help
  | generate {entries : List Entry} {options : GenerateOptions} (hoptions : Options entries) (h : AsksFor entries options) :
      Spells ("generate-key".toList :: words entries) (.generateKey options)
  | generateHelp {entries : List Entry} {w : List Char} {rest : List (List Char)} (hoptions : Options entries)
      (h : isHelp w = true) : Spells ("generate-key".toList :: (words entries ++ w :: rest)) .help

/-! ## One option -/

/-- What an option with its value does to the variables. -/
inductive Takes (a : GenerateArgs) : Entry → GenerateArgs → Prop
  | domain {v : List Char} (h : a.domain = none) : Takes a ⟨"--domain".toList, v⟩ { a with domain := some v }
  | selector {v : List Char} (h : a.selector = none) : Takes a ⟨"--selector".toList, v⟩ { a with selector := some v }
  | privateKey {v : List Char} (h : a.privateKey = none) :
      Takes a ⟨"--private-key".toList, v⟩ { a with privateKey := some (utf8 v) }
  | bits {v : List Char} {n : UInt32} (h : a.bits = none) (hv : parseU32 v = some n) :
      Takes a ⟨"--bits".toList, v⟩ { a with bits := some n }
  | requireFips (b : Bool) (h : a.requireFips = none) :
      Takes a ⟨"--require-fips".toList, boolText b⟩ { a with requireFips := some b }

variable {a a' : GenerateArgs} {e : Entry} {entries : List Entry} {options : GenerateOptions}

theorem take_ok {option value : List Char} : a.take option value = .ok a' ↔ Takes a ⟨option, value⟩ a' := by
  constructor
  · intro h
    unfold GenerateArgs.take at h
    split at h
    · rename_i hoption
      cases h
      exact hoption.1 ▸ .domain hoption.2
    split at h
    · rename_i hoption
      cases h
      exact hoption.1 ▸ .selector hoption.2
    split at h
    · rename_i hoption
      cases h
      exact hoption.1 ▸ .privateKey hoption.2
    split at h
    · rename_i hoption
      obtain ⟨n, hn, ⟨⟩⟩ := bind_eq_ok.1 h
      exact hoption.1 ▸ .bits hoption.2 (okOr_eq_ok.1 hn)
    split at h
    · rename_i hoption
      split at h
      · rename_i hvalue
        cases h
        exact hoption.1 ▸ hvalue ▸ .requireFips true hoption.2
      split at h
      · rename_i hvalue
        cases h
        exact hoption.1 ▸ hvalue ▸ .requireFips false hoption.2
      · cases h
    split at h
    · cases h
    · cases h
  · intro h
    unfold GenerateArgs.take
    cases h with
    | domain h => rw [if_pos ⟨rfl, h⟩]; rfl
    | selector h => rw [if_neg (by simp), if_pos ⟨rfl, h⟩]; rfl
    | privateKey h => rw [if_neg (by simp), if_neg (by simp), if_pos ⟨rfl, h⟩]; rfl
    | bits h hv =>
      rw [if_neg (by simp), if_neg (by simp), if_neg (by simp), if_pos ⟨rfl, h⟩, hv]
      rfl
    | requireFips b h =>
      rw [if_neg (by simp), if_neg (by simp), if_neg (by simp), if_neg (by simp), if_pos ⟨rfl, h⟩]
      cases b with
      | true => rw [boolText, if_pos rfl, if_pos rfl]; rfl
      | false =>
        have hne : boolText false ≠ "true".toList := by decide
        rw [if_neg hne, if_pos (by decide)]
        rfl

/-- What the variables hold after some options. -/
structure Holding (entries : List Entry) (a : GenerateArgs) : Prop where
  options : Options entries
  domain : Given "--domain".toList (fun v d => d = v) entries a.domain
  selector : Given "--selector".toList (fun v d => d = v) entries a.selector
  privateKey : Given "--private-key".toList (fun v p => p = utf8 v) entries a.privateKey
  bits : Given "--bits".toList (fun v n => parseU32 v = some n) entries a.bits
  requireFips : Given "--require-fips".toList (fun v b => v = boolText b) entries a.requireFips

theorem holding_nil : Holding [] {} where
  options := ⟨by simp, List.nodup_nil⟩
  domain := by intro d; simp
  selector := by intro d; simp
  privateKey := by intro p; simp
  bits := by intro n; simp
  requireFips := by intro b; simp

theorem Takes.valid (h : Takes a e a') : Valid e := by
  cases h with
  | domain => exact .domain
  | selector => exact .selector
  | privateKey => exact .privateKey
  | bits _ hv => exact .bits hv
  | requireFips b => exact .requireFips b

/-- An option that was not given. -/
theorem Given.isNone {α : Type} {name : List Char} {R : List Char → α → Prop} {o : Option α} (h : Given name R entries o)
    (hread : ∀ v, ⟨name, v⟩ ∈ entries → ∃ x, R v x) : o = none ↔ name ∉ entries.map Entry.name := by
  constructor
  · rintro rfl hmem
    obtain ⟨e, he, rfl⟩ := List.mem_map.1 hmem
    obtain ⟨x, hx⟩ := hread e.value he
    cases (h x).2 ⟨e.value, he, hx⟩
  · intro hnot
    cases o with
    | none => rfl
    | some x =>
      obtain ⟨v, hv, -⟩ := (h x).1 rfl
      exact absurd (List.mem_map_of_mem hv) hnot

theorem Options.bits (h : Options entries) {v : List Char} (hv : ⟨"--bits".toList, v⟩ ∈ entries) :
    ∃ n, parseU32 v = some n := by
  generalize he : (⟨"--bits".toList, v⟩ : Entry) = e at hv
  have hname := congrArg Entry.name he
  have hvalue : v = e.value := congrArg Entry.value he
  cases h.valid e hv with
  | bits hn => exact ⟨_, by rw [hvalue]; exact hn⟩
  | domain => simp at hname
  | selector => simp at hname
  | privateKey => simp at hname
  | requireFips b => simp at hname

theorem Options.requireFips (h : Options entries) {v : List Char} (hv : ⟨"--require-fips".toList, v⟩ ∈ entries) :
    ∃ b, v = boolText b := by
  generalize he : (⟨"--require-fips".toList, v⟩ : Entry) = e at hv
  have hname := congrArg Entry.name he
  have hvalue : v = e.value := congrArg Entry.value he
  cases h.valid e hv with
  | requireFips b => exact ⟨b, hvalue⟩
  | domain => simp at hname
  | selector => simp at hname
  | privateKey => simp at hname
  | bits _ => simp at hname

/-- A valid option is taken if it was not given before. -/
theorem Holding.takes (h : Holding entries a) (hvalid : Valid e) (hnew : e.name ∉ entries.map Entry.name) :
    ∃ a', Takes a e a' := by
  cases hvalid with
  | domain => exact ⟨_, .domain ((Given.isNone h.domain fun v _ => ⟨v, rfl⟩).2 hnew)⟩
  | selector => exact ⟨_, .selector ((Given.isNone h.selector fun v _ => ⟨v, rfl⟩).2 hnew)⟩
  | privateKey => exact ⟨_, .privateKey ((Given.isNone h.privateKey fun v _ => ⟨utf8 v, rfl⟩).2 hnew)⟩
  | bits hn => exact ⟨_, .bits ((Given.isNone h.bits fun _ hv => h.options.bits hv).2 hnew) hn⟩
  | requireFips b => exact ⟨_, .requireFips b ((Given.isNone h.requireFips fun _ hv => h.options.requireFips hv).2 hnew)⟩

theorem boolText_inj {b b' : Bool} : boolText b = boolText b' ↔ b' = b := by
  cases b <;> cases b' <;> decide

/-- An option that is taken was not given before. -/
theorem Holding.fresh (h : Holding entries a) (htakes : Takes a e a') : e.name ∉ entries.map Entry.name := by
  cases htakes with
  | domain hnone => exact (Given.isNone h.domain fun v _ => ⟨v, rfl⟩).1 hnone
  | selector hnone => exact (Given.isNone h.selector fun v _ => ⟨v, rfl⟩).1 hnone
  | privateKey hnone => exact (Given.isNone h.privateKey fun v _ => ⟨utf8 v, rfl⟩).1 hnone
  | bits hnone _ => exact (Given.isNone h.bits fun _ hv => h.options.bits hv).1 hnone
  | requireFips b hnone => exact (Given.isNone h.requireFips fun _ hv => h.options.requireFips hv).1 hnone

theorem Options.snoc (h : Options entries) (hvalid : Valid e) (hnew : e.name ∉ entries.map Entry.name) :
    Options (entries ++ [e]) where
  valid := by
    intro x hx
    rcases List.mem_append.1 hx with hx | hx
    · exact h.valid x hx
    · rwa [List.mem_singleton.1 hx]
  names := by
    rw [List.map_append, List.map_singleton, List.nodup_append]
    refine ⟨h.names, List.nodup_singleton _, fun n hn m hm => ?_⟩
    rw [List.mem_singleton.1 hm]
    rintro rfl
    exact hnew hn

/-- **The step**: an option with its value. -/
theorem Holding.step (h : Holding entries a) (htakes : Takes a e a') : Holding (entries ++ [e]) a' := by
  have hnew := h.fresh htakes
  have hoptions := h.options.snoc htakes.valid hnew
  cases htakes with
  | domain =>
    exact ⟨hoptions, .set hnew fun b => Iff.rfl, h.selector.other (by simp), h.privateKey.other (by simp),
      h.bits.other (by simp), h.requireFips.other (by simp)⟩
  | selector =>
    exact ⟨hoptions, h.domain.other (by simp), .set hnew fun b => Iff.rfl, h.privateKey.other (by simp),
      h.bits.other (by simp), h.requireFips.other (by simp)⟩
  | privateKey =>
    exact ⟨hoptions, h.domain.other (by simp), h.selector.other (by simp), .set hnew fun b => Iff.rfl,
      h.bits.other (by simp), h.requireFips.other (by simp)⟩
  | bits _ hn =>
    exact ⟨hoptions, h.domain.other (by simp), h.selector.other (by simp), h.privateKey.other (by simp),
      .set hnew fun b => by rw [hn, Option.some.injEq, eq_comm], h.requireFips.other (by simp)⟩
  | requireFips b =>
    exact ⟨hoptions, h.domain.other (by simp), h.selector.other (by simp), h.privateKey.other (by simp),
      h.bits.other (by simp), .set hnew fun b' => boolText_inj⟩

/-- What is returned at the end. -/
theorem Holding.finish (h : Holding entries a) : a.finish = .ok (.generateKey options) ↔ AsksFor entries options := by
  have hbits := Given.isNone h.bits fun _ hv => h.options.bits hv
  have hfips := Given.isNone h.requireFips fun _ hv => h.options.requireFips hv
  have hdefault : ∀ {α : Type} {o : Option α} {d x : α}, o.getD d = x ↔ (∀ y, o = some y → y = x) ∧ (o = none → d = x) := by
    intro α o d x
    cases o <;> simp
  simp only [GenerateArgs.finish, bind_eq_ok, okOr_eq_ok]
  constructor
  · rintro ⟨domain, hdomain, selector, hselector, privateKey, hprivate, ⟨⟩⟩
    obtain ⟨v, hv, rfl⟩ := (h.domain _).1 hdomain
    obtain ⟨w, hw, rfl⟩ := (h.selector _).1 hselector
    obtain ⟨hgiven, habsent⟩ := (hdefault (o := a.bits) (d := 2048)).1 rfl
    obtain ⟨hgiven', habsent'⟩ := (hdefault (o := a.requireFips) (d := true)).1 rfl
    refine ⟨hv, hw, (h.privateKey _).1 hprivate, fun x hx => ?_, fun x hx => ?_, fun hnot => (habsent (hbits.2 hnot)).symm,
      fun hnot => (habsent' (hfips.2 hnot)).symm⟩
    · obtain ⟨n, hn⟩ := h.options.bits hx
      rw [hn, hgiven n ((h.bits n).2 ⟨x, hx, hn⟩)]
    · obtain ⟨b, rfl⟩ := h.options.requireFips hx
      rw [hgiven' b ((h.requireFips b).2 ⟨_, hx, rfl⟩)]
  · intro hasks
    obtain ⟨v, hv, hpath⟩ := hasks.privateKey
    refine ⟨_, (h.domain _).2 ⟨_, hasks.domain, rfl⟩, _, (h.selector _).2 ⟨_, hasks.selector, rfl⟩, _,
      (h.privateKey _).2 ⟨v, hv, hpath⟩, ?_⟩
    have hb : a.bits.getD 2048 = options.bits := by
      refine hdefault.2 ⟨fun n hn => ?_, fun hnone => (hasks.bitsAbsent (hbits.1 hnone)).symm⟩
      obtain ⟨x, hx, hread⟩ := (h.bits n).1 hn
      exact Option.some.inj (hread.symm.trans (hasks.bits x hx))
    have hf : a.requireFips.getD true = options.requireFips := by
      refine hdefault.2 ⟨fun b hb => ?_, fun hnone => (hasks.fipsAbsent (hfips.1 hnone)).symm⟩
      obtain ⟨x, hx, hread⟩ := (h.requireFips b).1 hb
      exact (boolText_inj.1 (hread.symm.trans (hasks.requireFips x hx))).symm
    rw [hb, hf]
    rfl

/-! ## The loop of `parse_generate_args` -/

/-- How the words are read after some options. -/
inductive Read : List Entry → List (List Char) → Command → Prop
  | done {entries : List Entry} {options : GenerateOptions} (h : AsksFor entries options) :
      Read entries [] (.generateKey options)
  | help {entries : List Entry} {w : List Char} {rest : List (List Char)} (h : isHelp w = true) :
      Read entries (w :: rest) .help
  | next {entries : List Entry} {e : Entry} {rest : List (List Char)} {c : Command} (hvalid : Valid e)
      (hnew : e.name ∉ entries.map Entry.name) (hrest : Read (entries ++ [e]) rest c) :
      Read entries (e.name :: e.value :: rest) c

theorem Valid.not_help (h : Valid e) : isHelp e.name = false := by
  cases h <;> rfl

theorem finish_command {c : Command} (h : a.finish = .ok c) : ∃ options, c = .generateKey options := by
  simp only [GenerateArgs.finish, bind_eq_ok, okOr_eq_ok] at h
  obtain ⟨_, _, _, _, _, _, ⟨⟩⟩ := h
  exact ⟨_, rfl⟩

/-- **The loop**: by induction on the words, two at a time. -/
theorem parseGenerateArgs_ok {c : Command} : ∀ {args : List (List Char)} {a : GenerateArgs} {entries : List Entry},
    Holding entries a → (parseGenerateArgs a args = .ok c ↔ Read entries args c)
  | [], a, entries, h => by
    rw [parseGenerateArgs]
    constructor
    · intro hfinish
      obtain ⟨options, rfl⟩ := finish_command hfinish
      exact .done (h.finish.1 hfinish)
    · rintro ⟨hasks⟩
      exact h.finish.2 hasks
  | [option], a, entries, h => by
    rw [parseGenerateArgs]
    constructor
    · intro hok
      split at hok
      case isTrue hhelp =>
        cases hok
        exact .help hhelp
      case isFalse => cases hok
    · intro hread
      cases hread with
      | help hhelp => rw [if_pos hhelp]; rfl
  | option :: value :: rest, a, entries, h => by
    rw [parseGenerateArgs]
    cases hhelp : isHelp option with
    | true =>
      rw [if_pos rfl]
      constructor
      · rintro ⟨⟩
        exact .help hhelp
      · intro hread
        cases hread with
        | help => rfl
        | next hvalid =>
          rw [hvalid.not_help] at hhelp
          cases hhelp
    | false =>
      rw [if_neg (by simp), bind_eq_ok]
      constructor
      · rintro ⟨a', htake, hrest⟩
        have htakes := take_ok.1 htake
        exact .next (e := ⟨option, value⟩) htakes.valid (h.fresh htakes) ((parseGenerateArgs_ok (h.step htakes)).1 hrest)
      · intro hread
        cases hread with
        | help h =>
          rw [hhelp] at h
          cases h
        | next hvalid hnew hrest =>
          obtain ⟨a', htakes⟩ := h.takes hvalid hnew
          exact ⟨a', take_ok.2 htakes, (parseGenerateArgs_ok (h.step htakes)).2 hrest⟩

theorem words_cons (e : Entry) (entries : List Entry) : words (e :: entries) = e.name :: e.value :: words entries := rfl

/-- What the reading amounts to. -/
theorem Read.spells {args : List (List Char)} {c : Command} (h : Read entries args c) (hoptions : Options entries) :
    ∃ more, Options (entries ++ more) ∧
      ((∃ options, args = words more ∧ AsksFor (entries ++ more) options ∧ c = .generateKey options) ∨
        ∃ w rest, args = words more ++ w :: rest ∧ isHelp w = true ∧ c = .help) := by
  induction h with
  | done hasks => exact ⟨[], by simpa using hoptions, Or.inl ⟨_, rfl, by simpa using hasks, rfl⟩⟩
  | help hhelp => exact ⟨[], by simpa using hoptions, Or.inr ⟨_, _, rfl, hhelp, rfl⟩⟩
  | @next entries e rest c hvalid hnew _ ih =>
    obtain ⟨more, hmore, hwords⟩ := ih (hoptions.snoc hvalid hnew)
    rw [List.append_assoc, List.singleton_append] at hmore hwords
    refine ⟨e :: more, hmore, ?_⟩
    rcases hwords with ⟨options, rfl, hasks, rfl⟩ | ⟨w, rest', rfl, hhelp, rfl⟩
    · exact Or.inl ⟨options, rfl, hasks, rfl⟩
    · exact Or.inr ⟨w, rest', rfl, hhelp, rfl⟩

/-- Distinct valid options are all read. -/
theorem Read.of_options {rest : List (List Char)} {c : Command} : ∀ {more entries : List Entry}, Options (entries ++ more) →
    Read (entries ++ more) rest c → Read entries (words more ++ rest) c
  | [], entries, _, h => by simpa [words] using h
  | e :: more, entries, hoptions, h => by
    have hnew : e.name ∉ entries.map Entry.name := by
      have hnames := hoptions.names
      rw [List.map_append, List.map_cons] at hnames
      exact fun hmem => (List.nodup_append.1 hnames).2.2 _ hmem _ List.mem_cons_self rfl
    have hassoc : entries ++ e :: more = entries ++ [e] ++ more := by simp
    rw [hassoc] at hoptions h
    rw [words_cons]
    exact .next (hoptions.valid e (by simp)) hnew (Read.of_options hoptions h)

/-! ## The loop of `parse_args` -/

theorem isHelp_ne {w : List Char} (h : isHelp w = true) : w ≠ "--check-config".toList ∧ w ≠ "--config".toList ∧
    w ≠ "--version".toList ∧ w ≠ "generate-key".toList := by
  refine ⟨?_, ?_, ?_, ?_⟩ <;> rintro rfl <;> revert h <;> decide

/-- How the words are read for the daemon. -/
inductive Served (alone : Bool) : Option (List Char) → Bool → List (List Char) → Command → Prop
  | done {config : Option (List Char)} {check : Bool} :
      Served alone config check [] (.serve (utf8 (config.getD defaultConfig)) check)
  | version {config : Option (List Char)} {check : Bool} {w : List Char} {rest : List (List Char)} (h : alone = true)
      (hw : w = "--version".toList) : Served alone config check (w :: rest) .version
  | help {config : Option (List Char)} {check : Bool} {w : List Char} {rest : List (List Char)} (h : alone = true)
      (hw : isHelp w = true) : Served alone config check (w :: rest) .help
  | check {config : Option (List Char)} {w : List Char} {rest : List (List Char)} {c : Command}
      (hw : w = "--check-config".toList) (hrest : Served alone config true rest c) :
      Served alone config false (w :: rest) c
  | config {check : Bool} {w path : List Char} {rest : List (List Char)} {c : Command} (hw : w = "--config".toList)
      (hrest : Served alone (some path) check rest c) : Served alone none check (w :: path :: rest) c

/-- **The loop**: by induction on how many words are left. -/
theorem parseServeArgs_ok {alone : Bool} {c : Command} : ∀ (args : List (List Char)) {config : Option (List Char)}
    {check : Bool}, parseServeArgs alone config check args = .ok c ↔ Served alone config check args c
  | [], config, check => by
    rw [parseServeArgs]
    constructor
    · rintro ⟨⟩
      exact .done
    · rintro ⟨⟩
      rfl
  | arg :: rest, config, check => by
    have hneither : "--check-config".toList ≠ "--config".toList := by decide
    rw [parseServeArgs.eq_def]
    simp only
    by_cases hversion : arg = "--version".toList ∧ alone = true
    · rw [if_pos hversion]
      constructor
      · rintro ⟨⟩
        exact .version hversion.2 hversion.1
      · intro hserved
        cases hserved with
        | version => rfl
        | help _ hw => exact absurd hversion.1 (isHelp_ne hw).2.2.1
        | check hw => exact absurd (hw.symm.trans hversion.1) (by decide)
        | config hw => exact absurd (hw.symm.trans hversion.1) (by decide)
    rw [if_neg hversion]
    by_cases hhelp : isHelp arg = true ∧ alone = true
    · rw [if_pos hhelp]
      constructor
      · rintro ⟨⟩
        exact .help hhelp.2 hhelp.1
      · intro hserved
        cases hserved with
        | version h hw => exact absurd ⟨hw, h⟩ hversion
        | help => rfl
        | check hw => exact absurd hw (isHelp_ne hhelp.1).1
        | config hw => exact absurd hw (isHelp_ne hhelp.1).2.1
    rw [if_neg hhelp]
    by_cases hcheck : arg = "--check-config".toList
    · rw [if_pos hcheck]
      cases check with
      | true =>
        rw [if_pos rfl]
        constructor
        · rintro ⟨⟩
        · intro hserved
          cases hserved with
          | version h hw => exact absurd ⟨hw, h⟩ hversion
          | help h hw => exact absurd ⟨hw, h⟩ hhelp
          | config hw => exact absurd (hcheck.symm.trans hw) hneither
      | false =>
        rw [if_neg (by simp), parseServeArgs_ok rest]
        constructor
        · exact .check hcheck
        · intro hserved
          cases hserved with
          | version h hw => exact absurd ⟨hw, h⟩ hversion
          | help h hw => exact absurd ⟨hw, h⟩ hhelp
          | check _ hrest => exact hrest
          | config hw => exact absurd (hcheck.symm.trans hw) hneither
    rw [if_neg hcheck]
    by_cases hconfig : arg = "--config".toList
    · rw [if_pos hconfig]
      cases config with
      | some path =>
        rw [if_neg (by simp)]
        constructor
        · rintro ⟨⟩
        · intro hserved
          cases hserved with
          | version h hw => exact absurd ⟨hw, h⟩ hversion
          | help h hw => exact absurd ⟨hw, h⟩ hhelp
          | check hw => exact absurd hw hcheck
      | none =>
        rw [if_pos rfl]
        cases rest with
        | nil =>
          constructor
          · rintro ⟨⟩
          · intro hserved
            cases hserved with
            | version h hw => exact absurd ⟨hw, h⟩ hversion
            | help h hw => exact absurd ⟨hw, h⟩ hhelp
            | check hw => exact absurd hw hcheck
        | cons value rest =>
          simp only [parseServeArgs_ok rest]
          constructor
          · exact .config hconfig
          · intro hserved
            cases hserved with
            | version h hw => exact absurd ⟨hw, h⟩ hversion
            | help h hw => exact absurd ⟨hw, h⟩ hhelp
            | check hw => exact absurd hw hcheck
            | config _ hrest => exact hrest
    · rw [if_neg hconfig]
      constructor
      · rintro ⟨⟩
      · intro hserved
        cases hserved with
        | version h hw => exact absurd ⟨hw, h⟩ hversion
        | help h hw => exact absurd ⟨hw, h⟩ hhelp
        | check hw => exact absurd hw hcheck
        | config hw => exact absurd hw hconfig
termination_by args => args.length

/-- A word that must stand alone. -/
theorem Served.spells {ws : List (List Char)} {c : Command} (h : Served (ws.length == 1) none false ws c) : Spells ws c := by
  have hlone : ∀ {w : List Char} {rest : List (List Char)}, ((w :: rest).length == 1) = true → rest = [] := by
    intro w rest h
    simpa using h
  cases h with
  | done => exact .start
  | version halone hw =>
    obtain rfl := hlone halone
    exact hw ▸ .version
  | help halone hw =>
    obtain rfl := hlone halone
    exact .help hw
  | check hw hrest =>
    rw [hw]
    cases hrest with
    | done => exact .check
    | version halone => cases hlone halone
    | help halone _ => cases hlone halone
    | config hw hrest =>
      rw [hw]
      cases hrest with
      | done => exact .checkConfig _
      | version halone => cases hlone halone
      | help halone _ => cases hlone halone
  | config hw hrest =>
    rw [hw]
    cases hrest with
    | done => exact .config _
    | version halone => cases hlone halone
    | help halone _ => cases hlone halone
    | check hw hrest =>
      rw [hw]
      cases hrest with
      | done => exact .configCheck _
      | version halone => cases hlone halone
      | help halone _ => cases hlone halone

/-! ## The command line -/

theorem parseArgs_generate (program : List Char) (rest : List (List Char)) (c : Command) :
    parseArgs (program :: "generate-key".toList :: rest) = .ok c ↔ Read [] rest c := by
  have hfirst : (program :: "generate-key".toList :: rest)[1]? = some "generate-key".toList := rfl
  rw [parseArgs, if_pos hfirst]
  exact parseGenerateArgs_ok holding_nil

theorem parseArgs_serve (program : List Char) {ws : List (List Char)} (h : ws.head? ≠ some "generate-key".toList)
    (c : Command) : parseArgs (program :: ws) = .ok c ↔ Served (ws.length == 1) none false ws c := by
  have hfirst : (program :: ws)[1]? ≠ some "generate-key".toList := by
    rw [List.getElem?_cons_succ, ← List.head?_eq_getElem?]
    exact h
  have halone : ((program :: ws).length == 2) = (ws.length == 1) := by
    rw [List.length_cons]
    exact Bool.eq_iff_iff.2 (by simp)
  rw [parseArgs, if_neg hfirst, halone]
  exact parseServeArgs_ok ws

/-- **The command line.** The words after the name of the program are accepted as a command if and only
if they spell it. -/
theorem command_line (program : List Char) (ws : List (List Char)) (c : Command) :
    parseArgs (program :: ws) = .ok c ↔ Spells ws c := by
  by_cases hgenerate : ws.head? = some "generate-key".toList
  · obtain ⟨rest, hws⟩ : ∃ rest, ws = "generate-key".toList :: rest := by
      cases ws with
      | nil => cases hgenerate
      | cons w rest => exact ⟨rest, by rw [Option.some.inj hgenerate]⟩
    have hother : ∀ {w : List Char} {more : List (List Char)}, w :: more = ws → w = "generate-key".toList :=
      fun h => (List.cons.inj (h.trans hws)).1
    constructor
    · rw [hws, parseArgs_generate]
      intro hread
      obtain ⟨more, hmore, ⟨options, rfl, hasks, rfl⟩ | ⟨w, rest', rfl, hhelp, rfl⟩⟩ :=
        hread.spells ⟨by simp, List.nodup_nil⟩
      · exact .generate hmore hasks
      · exact .generateHelp hmore hhelp
    · intro hspells
      cases hspells with
      | start => cases hgenerate
      | check => exact absurd (hother rfl) (by decide)
      | config => exact absurd (hother rfl) (by decide)
      | configCheck => exact absurd (hother rfl) (by decide)
      | checkConfig => exact absurd (hother rfl) (by decide)
      | version => exact absurd (hother rfl) (by decide)
      | help hw => exact absurd (hother rfl) (isHelp_ne hw).2.2.2
      | generate hoptions hasks =>
        have hread : Read [] (words _ ++ []) _ := Read.of_options hoptions (.done hasks)
        rw [List.append_nil] at hread
        exact (parseArgs_generate program _ _).2 hread
      | generateHelp hoptions hhelp => exact (parseArgs_generate program _ _).2 (Read.of_options hoptions (.help hhelp))
  · rw [parseArgs_serve program hgenerate]
    constructor
    · exact Served.spells
    · intro hspells
      cases hspells with
      | start => exact .done
      | check => exact .check rfl .done
      | config path => exact .config rfl .done
      | configCheck path => exact .config rfl (.check rfl .done)
      | checkConfig path => exact .check rfl (.config rfl .done)
      | version => exact .version rfl rfl
      | help hw => exact .help rfl hw
      | generate => exact absurd rfl hgenerate
      | generateHelp => exact absurd rfl hgenerate

end DkimLite.Main
