import DkimLite.KeyRecord

/-!
# From a generated key to a loaded one (`src/keygen.rs:30-116`, `src/config.rs:30-98`)

Any number of runs of `generate` work side by side, while other processes create files. What a run that
has returned left on the disk stays there (`generations_leave`), and a configuration file that names it
loads with the key that was generated (`generated_key_loads`). That OpenSSL reads back the PEM text it
writes, and that `fs::read` finds what stands on the disk, are hypotheses.
-/

namespace DkimLite
open Rust Text

/-! ## What a run leaves -/

section
variable {ι Dir Key : Type} [DecidableEq ι] [DecidableEq Dir] {resolve : Bytes → Dir} {s₀ : Disk Dir ι}

abbrev GenerateSystem (Dir ι : Type) := System ι (Disk Dir ι) FsCall FsCall.Answer (Exec GeneratedKey)

/-- The runs side by side, with processes that create files. -/
def Generations (resolve : Bytes → Dir) : GenerateSystem Dir ι → GenerateSystem Dir ι → Prop :=
  System.Runs (fun i s c => FsCall.Acts resolve i s c) Disk.Grown

/-- What a run has to write. -/
def pemOf (env : KeygenEnv Key) (options : GenerateOptions) : Bytes :=
  match prepare env options with
  | .ok (_, _, _, privatePem) => privatePem
  | .error _ => []

/-- What a run that succeeds leaves: the key, for its owner alone. -/
structure KeyLeft (resolve : Bytes → Dir) (env : KeygenEnv Key) (options : GenerateOptions) (i : ι) (g : GeneratedKey)
    (s : Disk Dir ι) : Prop where
  prepared : ∃ publicDer, prepare env options = .ok (g.domain, g.selector, publicDer, pemOf env options) ∧
    generated env options g.domain g.selector publicDer = .ok g
  plain : EndsInName options.privateKey
  stands : ∃ t, place resolve options.privateKey = some t ∧ s.look t = some (keyInode i (pemOf env options))

theorem generated_names {env : KeygenEnv Key} {options : GenerateOptions} {domain selector : DnsName} {publicDer : Bytes}
    {g : GeneratedKey} (h : generated env options domain selector publicDer = .ok g) :
    g.domain = domain ∧ g.selector = selector ∧ g.privateKey = options.privateKey := by
  obtain ⟨record, -, h⟩ := Exec.bind_eq_ok.1 h
  cases h
  exact ⟨rfl, rfl, rfl⟩

omit [DecidableEq ι] in
/-- **The walk through `generate`.** -/
theorem generate_wp {env : KeygenEnv Key} {options : GenerateOptions} {i : ι} {s : Disk Dir ι} (h : Disk.Holds i ∅ 0 s) :
    Wp (fun s c => FsCall.Acts resolve i s c) (Disk.Kept i)
      (Guarantee i (place resolve options.privateKey) (pemOf env options))
      (fun r s => ∀ g, r = .ok g → ∃ publicDer t m,
        prepare env options = .ok (g.domain, g.selector, publicDer, pemOf env options) ∧
          generated env options g.domain g.selector publicDer = .ok g ∧ EndsInName options.privateKey ∧
            place resolve options.privateKey = some t ∧ s.names t = some ⟨m, some i⟩)
      (generate env options) s := by
  unfold generate
  cases hprepare : prepare env options with
  | error e => exact fun s' _ g hg => by cases hg
  | ok prepared =>
    obtain ⟨domain, selector, publicDer, privatePem⟩ := prepared
    have hpem : pemOf env options = privatePem := by rw [pemOf, hprepare]
    rw [hpem]
    refine Wp.bind (Disk.kept_interference i) ((writePrivateKey_wp h).mono fun r s hr => ?_)
    cases r with
    | error e => exact fun s' _ g hg => by cases hg
    | ok _ =>
      obtain ⟨hends, t, m, ht, hm⟩ := hr rfl
      intro s' hs g hg
      obtain ⟨rfl, rfl, -⟩ := generated_names hg
      exact ⟨publicDer, t, m, rfl, hg, hends, ht, (hs.names _ _ rfl).2 hm⟩

omit [DecidableEq ι] [DecidableEq Dir] in
theorem guarantees_compatible {dest : ι → Option (Dir × Bytes)} {contents : ι → Bytes} :
    System.Compatible Disk.Grown (fun i => Disk.Kept i) fun i => Guarantee i (dest i) (contents i) where
  interference i := Disk.kept_interference i
  env _ _ _ h := h.kept
  others hij _ _ h := h.spared.kept hij

/-- What a run that has returned left, in any order of steps, with any calls failing, then and later. -/
theorem generations_leave (env : ι → KeygenEnv Key) (options : ι → GenerateOptions) (h₀ : Unclaimed s₀)
    {sys : GenerateSystem Dir ι} (hruns : Generations resolve ⟨s₀, fun i => generate (env i) (options i)⟩ sys) {i : ι}
    {g : GeneratedKey} (hret : sys.progs i = .ret (.ok g)) : KeyLeft resolve (env i) (options i) i g sys.world := by
  have hc : System.Compatible (Disk.Grown : Disk Dir ι → Disk Dir ι → Prop) (fun i => Disk.Kept i)
      fun i => Guarantee i (place resolve (options i).privateKey) (pemOf (env i) (options i)) := guarantees_compatible
  have howing₀ : System.Owing (fun i s c => FsCall.Acts resolve i s c) (fun i => Disk.Kept i)
      (fun i => Guarantee i (place resolve (options i).privateKey) (pemOf (env i) (options i)))
      (fun i r s => ∀ g, r = .ok g → ∃ publicDer t m,
        prepare (env i) (options i) = .ok (g.domain, g.selector, publicDer, pemOf (env i) (options i)) ∧
          generated (env i) (options i) g.domain g.selector publicDer = .ok g ∧ EndsInName (options i).privateKey ∧
            place resolve (options i).privateKey = some t ∧ s.names t = some ⟨m, some i⟩)
      ⟨s₀, fun i => generate (env i) (options i)⟩ := by
    intro i
    refine generate_wp fun p m => ⟨fun hp => ?_, fun hp => absurd hp.1 (Set.notMem_empty p)⟩
    cases h₀.names p _ hp
  obtain ⟨publicDer, t, m, hprepare, hgenerated, hends, ht, hm⟩ := (howing₀.runs hc hruns).returned hc hret g rfl
  have hcomplete : Complete i t (pemOf (env i) (options i)) sys.world := by
    refine howing₀.keeps hc (P := Complete i t (pemOf (env i) (options i))) (fun henv h => h.kept henv.kept)
      (fun j s s' hguar h => ?_) hruns fun n hn => ?_
    · by_cases hji : j = i
      · subst hji
        exact hguar.complete t ht h
      · exact h.kept (hguar.spared.kept hji)
    · cases h₀.names t _ hn
  refine ⟨⟨publicDer, hprepare, hgenerated⟩, hends, t, ht, ?_⟩
  rw [Disk.look, hm]
  exact hcomplete m hm

end

/-! ## What is loaded -/

/-- A file that names what was generated. -/
structure NamesKey (g : GeneratedKey) (entries : List Entry) : Prop where
  domain : ∃ v, ⟨"domain".toList, v⟩ ∈ entries ∧ validateDnsName "domain" v = .ok g.domain
  selector : ∃ v, ⟨"selector".toList, v⟩ ∈ entries ∧ validateDnsName "selector" v = .ok g.selector
  privateKey : ∃ v, ⟨"private_key".toList, v⟩ ∈ entries ∧ utf8 v = g.privateKey
  listen : ∃ v l, ⟨"listen".toList, v⟩ ∈ entries ∧ parseListen v = .ok l

/-- `fs::read` finds what stands on the disk, under a path that ends in its file name. -/
def Files.On {ι Dir : Type} (files : Files) (resolve : Bytes → Dir) (s : Disk Dir ι) : Prop :=
  ∀ path t name x contents, place resolve path = some t → fileName path = some name → name <:+ path → s.look t = some x →
    x.kind = .regular contents → files.read path = .ok contents

/-- OpenSSL reads back the key it has written as PEM. -/
def KeygenEnv.ReadsBack {Key : Type} (env : KeygenEnv Key) : Prop :=
  ∀ key pem, env.maker.privateKeyToPem key = .ok pem → env.keys.privateKeyFromPem pem = .ok key

section
variable {ι Dir Key : Type} {resolve : Bytes → Dir} {env : KeygenEnv Key} {options : GenerateOptions}

/-- The key that was prepared: valid, and written. -/
theorem prepare_key {domain selector : DnsName} {publicDer privatePem : Bytes}
    (h : prepare env options = .ok (domain, selector, publicDer, privatePem)) :
    ∃ key, generateRsa env.maker options.bits = .ok key ∧ validateKey env.ssl env.keys key = .ok () ∧
      env.maker.publicKeyToDer key = .ok publicDer ∧ env.maker.privateKeyToPem key = .ok privatePem ∧
        options.privateKey.head? = some SLASH := by
  obtain ⟨-, -, h⟩ := bind_eq_ok.1 h
  obtain ⟨domain', -, h⟩ := bind_eq_ok.1 h
  obtain ⟨selector', -, h⟩ := bind_eq_ok.1 h
  split at h
  · cases h
  split at h
  · cases h
  rename_i habsolute
  obtain ⟨key, hkey, h⟩ := bind_eq_ok.1 h
  obtain ⟨_, hvalid, h⟩ := bind_eq_ok.1 h
  obtain ⟨der, hder, h⟩ := bind_eq_ok.1 h
  obtain ⟨pem, hpem, ⟨⟩⟩ := bind_eq_ok.1 h
  exact ⟨key, hkey, hvalid, mapError_eq_ok.1 hder, mapError_eq_ok.1 hpem, not_not.1 habsolute⟩

theorem head_slash {v : List Char} (h : (utf8 v).head? = some SLASH) : v.head? = some '/' := by
  obtain ⟨rest, hrest⟩ : ∃ rest, utf8 v = [] ++ SLASH :: rest := by
    cases hv : utf8 v with
    | nil => rw [hv] at h; cases h
    | cons b rest =>
      rw [hv] at h
      cases h
      exact ⟨rest, rfl⟩
  obtain ⟨l, r, rfl, hl, -⟩ := utf8_split (by decide) hrest
  obtain rfl : l = [] := utf8_injective (hl.trans utf8_nil.symm)
  rfl

/-- Some value of the flag agrees with the file. -/
theorem WellFormed.fips_flag {raws : List (List Char)} {entries : List Entry} (h : WellFormed raws entries) :
    ∃ flag : Bool, (∀ v, ⟨"require_fips".toList, v⟩ ∈ entries → v = (if flag then "true".toList else "false".toList)) ∧
      ("require_fips".toList ∉ entries.map Entry.name → flag = true) := by
  by_cases hfalse : ⟨"require_fips".toList, "false".toList⟩ ∈ entries
  · exact ⟨false, fun v hv => h.value_unique hv hfalse, fun habsent => absurd (List.mem_map.2 ⟨_, hfalse, rfl⟩) habsent⟩
  · refine ⟨true, fun v hv => (h.fips_value hv).resolve_right ?_, fun _ => rfl⟩
    rintro rfl
    exact hfalse hv

/-- A file that names what was generated loads, with the key that was generated. -/
theorem loads_of_left {i : ι} {g : GeneratedKey} {s : Disk Dir ι} (hleft : KeyLeft resolve env options i g s)
    (hback : env.ReadsBack) {files : Files} (hfiles : files.On resolve s) {path : Bytes} {input : List Char}
    (hinput : files.readToString path = .ok input) {entries : List Entry} (hformed : WellFormed (lines input) entries)
    (hnames : NamesKey g entries) :
    ∃ config, load files env.ssl env.keys path = .ok config ∧ config.domain = g.domain ∧ config.selector = g.selector ∧
      generateRsa env.maker options.bits = .ok config.key := by
  obtain ⟨⟨publicDer, hprepare, hgenerated⟩, ⟨name, hname, hsuffix⟩, t, ht, hlook⟩ := hleft
  obtain ⟨key, hkey, hvalid, -, hpem, habsolute⟩ := prepare_key hprepare
  obtain ⟨-, -, hpath⟩ := generated_names hgenerated
  obtain ⟨v, hv, hutf8⟩ := hnames.privateKey
  obtain ⟨w, listen, hw, hlisten⟩ := hnames.listen
  obtain ⟨flag, hflag, habsent⟩ := hformed.fips_flag
  have hread : files.read g.privateKey = .ok (pemOf env options) :=
    hfiles g.privateKey t name _ _ (hpath ▸ ht) (hpath ▸ hname) (hpath ▸ hsuffix) hlook rfl
  have hhead : v.head? = some '/' := head_slash (by rw [hutf8, hpath, habsolute])
  exact ⟨⟨g.domain, g.selector, g.privateKey, listen, flag, key⟩, load_iff.2 ⟨input, entries, hinput, hformed,
    hnames.domain, hnames.selector, ⟨v, hv, hhead, hutf8.symm⟩, ⟨w, hw, hlisten⟩, hflag, habsent,
    pemOf env options, hread, hback key _ hpem, hvalid⟩, rfl, rfl, hkey⟩

/-- **A generated key loads.** Among any number of runs of `generate`, in any order of their steps and with
any calls failing: once one of them has returned, then and at any later time, a well-formed
configuration file that names its domain, its selector and its key file loads, and the key is the one
that was generated. -/
theorem generated_key_loads [DecidableEq ι] [DecidableEq Dir] (env : ι → KeygenEnv Key) (options : ι → GenerateOptions)
    {s₀ : Disk Dir ι} (h₀ : Unclaimed s₀) {sys : GenerateSystem Dir ι}
    (hruns : Generations resolve ⟨s₀, fun i => generate (env i) (options i)⟩ sys) {i : ι} {g : GeneratedKey}
    (hret : sys.progs i = .ret (.ok g)) (hback : (env i).ReadsBack) {files : Files} (hfiles : files.On resolve sys.world)
    {path : Bytes} {input : List Char} (hinput : files.readToString path = .ok input) {entries : List Entry}
    (hformed : WellFormed (lines input) entries) (hnames : NamesKey g entries) :
    ∃ config, load files (env i).ssl (env i).keys path = .ok config ∧ config.domain = g.domain ∧
      config.selector = g.selector ∧ generateRsa (env i).maker (options i).bits = .ok config.key :=
  loads_of_left (generations_leave env options h₀ hruns hret) hback hfiles hinput hformed hnames

end

/-! ## An example -/

/-- What stands on the disk, and one text for every configuration file. -/
def filesOn {ι Dir : Type} (resolve : Bytes → Dir) (s : Disk Dir ι) (text : List Char) : Files where
  readToString _ := .ok text
  read path :=
    match (place resolve path).bind s.look with
    | some ⟨.regular contents, _, _⟩ => .ok contents
    | _ => .error "no such file"
  display _ := ""

theorem filesOn_on {ι Dir : Type} (resolve : Bytes → Dir) (s : Disk Dir ι) (text : List Char) :
    (filesOn resolve s text).On resolve s := by
  rintro path t name ⟨kind, mode, owner⟩ contents ht - - hlook hkind
  cases hkind
  simp only [filesOn, ht, Option.bind_some, hlook]

/-- A file that names the key at `/k`. -/
def exampleNaming : List Char :=
  "domain = example.com\nselector = s1\nprivate_key = /k\nlisten = tcp:127.0.0.1:8891\n".toList

def exampleNamed : RuntimeConfig Unit :=
  { exampleConfig with privateKey := ascii "/k", listen := .tcp (.v4 0x7f000001#32 8891), requireFips := true }

theorem exampleNaming_loads : loadInput ⟨fun _ => .error "", fun _ => .ok [], fun _ => ""⟩ exampleKeygen.ssl
    exampleKeygen.keys exampleNaming = .ok exampleNamed := by
  decide +kernel

/-- The disk with the key at `/k`. -/
def exampleDisk : Disk Bytes Unit :=
  let temporary := temporaryName (ascii "k") 1 0
  (linked id () examplePem (ascii "/") temporary (ascii "k") 0 1 Disk.empty).setName (ascii "/", temporary) none

/-- A run of `generate`, alone on an empty disk. -/
theorem example_generation : ∃ (g : GeneratedKey) (sys : GenerateSystem Bytes Unit),
    Generations id ⟨Disk.empty, fun _ => generate exampleKeygen (exampleOptions "Example.COM." "S1")⟩ sys ∧
      sys.progs () = .ret (.ok g) ∧ sys.world = exampleDisk ∧
        generated exampleKeygen (exampleOptions "Example.COM." "S1") exampleConfig.domain exampleConfig.selector exampleDer =
          .ok g := by
  obtain ⟨g, hg⟩ := generated_short exampleKeygen (exampleOptions "Example.COM." "S1") exampleConfig.domain
    exampleConfig.selector (by rw [length_exampleDer]; omega : exampleDer.length ≤ 512)
  have hwrite : Prog.Returns (fun s c => FsCall.Acts id () s c) (writePrivateKey (fun _ => "/k") 1 (ascii "/k") examplePem)
      Disk.empty (.ok ()) exampleDisk :=
    writePrivateKey_works (f := id) Or.inl (by decide) (by decide) (by decide) rfl rfl rfl
  have hrun := generate_returns example_prepared hwrite
  rw [hg] at hrun
  exact ⟨g, _, System.runs_of_returns hrun rfl, by simp, rfl, hg⟩

/-- The file that names it. -/
theorem exampleNaming_names {g : GeneratedKey} (hg : generated exampleKeygen (exampleOptions "Example.COM." "S1")
    exampleConfig.domain exampleConfig.selector exampleDer = .ok g) :
    ∃ entries, WellFormed (lines exampleNaming) entries ∧ NamesKey g entries := by
  obtain ⟨entries, hformed, hconfigures⟩ := loadInput_iff.1 exampleNaming_loads
  obtain ⟨hdomain, hselector, hpath⟩ := generated_names hg
  refine ⟨entries, hformed, ?_, ?_, ?_, ?_⟩
  · rw [hdomain]
    exact hconfigures.domain
  · rw [hselector]
    exact hconfigures.selector
  · obtain ⟨v, hv, -, hutf8⟩ := hconfigures.privateKey
    exact ⟨v, hv, hutf8.symm.trans hpath.symm⟩
  · obtain ⟨v, hv, hlisten⟩ := hconfigures.listen
    exact ⟨v, _, hv, hlisten⟩

theorem generated_key_loads_example : ∃ (g : GeneratedKey) (sys : GenerateSystem Bytes Unit) (config : RuntimeConfig Unit),
    sys.progs () = .ret (.ok g) ∧
      load (filesOn id sys.world exampleNaming) exampleKeygen.ssl exampleKeygen.keys [] = .ok config ∧
        config.domain = g.domain := by
  obtain ⟨g, sys, hruns, hret, -, hg⟩ := example_generation
  obtain ⟨entries, hformed, hnames⟩ := exampleNaming_names hg
  obtain ⟨config, hload, hdomain, -⟩ := generated_key_loads (fun _ => exampleKeygen)
    (fun _ => exampleOptions "Example.COM." "S1") ⟨fun _ _ h => (by cases h), fun _ _ h => (by cases h)⟩ hruns hret
    (fun _ _ _ => rfl) (filesOn_on id sys.world exampleNaming)
    (show (filesOn id sys.world exampleNaming).readToString [] = .ok exampleNaming from rfl) hformed hnames
  exact ⟨g, sys, config, hret, hload, hdomain⟩

end DkimLite
