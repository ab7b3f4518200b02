import DkimLite.KeyInstall

/-!
# What a run of `generate` leaves behind (`src/keygen.rs:30-143`)

One run, with the file-system calls that failed on record. `Traceless` is that an error leaves every
path as it was, and that success adds the target alone. It holds exactly when no `remove_file` has
failed (`generate_traceless`), whatever else does. The removal of the temporary file comes after the
link, and its failure is an error that leaves the key installed (`removal_fails`).
-/

namespace DkimLite
open Rust

section
variable {ι Dir : Type}

/-! ## What may be left -/

/-- Every path is as it was: its entry, and what the entry stands for. -/
structure Unchanged (s s' : Disk Dir ι) : Prop where
  names : s'.names = s.names
  inodes : ∀ n x, s.inodes n = some x → s'.inodes n = some x

/-- `t` is new, and the other paths are as they were. -/
structure Added (t : Dir × Bytes) (s s' : Disk Dir ι) : Prop where
  absent : s.names t = none
  present : s'.names t ≠ none
  names : ∀ p, p ≠ t → s'.names p = s.names p
  inodes : ∀ n x, s.inodes n = some x → s'.inodes n = some x

def Traceless (resolve : Bytes → Dir) (target : Bytes) (s : Disk Dir ι) : Exec GeneratedKey → Disk Dir ι → Prop
  | .err _, s' => Unchanged s s'
  | .ok _, s' => ∃ t, place resolve target = some t ∧ Added t s s'
  | .panic, _ => True

/-- No `remove_file` is among the calls. -/
def NoRemoval (failed : List FsCall) : Prop := ∀ dir name, FsCall.removeFile dir name ∉ failed

/-- A call that works, or that fails and is put on record. -/
inductive Logged [DecidableEq Dir] (resolve : Bytes → Dir) (i : ι) :
    Disk Dir ι × List FsCall → (c : FsCall) → c.Answer → Disk Dir ι × List FsCall → Prop
  | works {s s' : Disk Dir ι} {failed : List FsCall} {c : FsCall} {a : c.Answer} :
      FsCall.Works resolve i s c a s' → Logged resolve i (s, failed) c a (s', failed)
  | fails {s s' : Disk Dir ι} {failed : List FsCall} {c : FsCall} {a : c.Answer} :
      FsCall.Fails s c a s' → Logged resolve i (s, failed) c a (s', failed ++ [c])

/-! ## What is known along the way -/

/-- The temporary file is there and is all that is new. -/
structure Temporary (i : ι) (p : Dir × Bytes) (n : Nat) (s s' : Disk Dir ι) : Prop where
  absent : s.names p = none
  fresh : s.inodes n = none
  others : ∀ q, q ≠ p → s'.names q = s.names q
  entry : s'.names p = some ⟨n, some i⟩
  inodes : ∀ m x, s.inodes m = some x → s'.inodes m = some x

/-- Nothing is left, or a path that is new while a `remove_file` has failed. -/
def Left (s s' : Disk Dir ι) (failed : List FsCall) : Prop :=
  Unchanged s s' ∧ NoRemoval failed ∨ (∃ p, s.names p = none ∧ s'.names p ≠ none) ∧ ¬ NoRemoval failed

/-- What an error of the installation leaves to the clean-up. -/
def Pending (i : ι) (p : Dir × Bytes) (n : Nat) (s s' : Disk Dir ι) (failed : List FsCall) : Prop :=
  Temporary i p n s s' ∧ NoRemoval failed ∨ (∃ t, t ≠ p ∧ s.names t = none ∧ s'.names t ≠ none) ∧ ¬ NoRemoval failed

theorem Unchanged.refl (s : Disk Dir ι) : Unchanged s s := ⟨rfl, fun _ _ h => h⟩

variable {i : ι} {p : Dir × Bytes} {n : Nat} {s s' : Disk Dir ι} {failed : List FsCall}

theorem NoRemoval.append {c : FsCall} (h : NoRemoval failed) (hc : ∀ dir name, c ≠ .removeFile dir name) :
    NoRemoval (failed ++ [c]) := by
  intro dir name hmem
  rcases List.mem_append.1 hmem with hmem | hmem
  · exact h dir name hmem
  · exact hc dir name (List.mem_singleton.1 hmem).symm

theorem removal_recorded (dir name : Bytes) : ¬ NoRemoval (failed ++ [.removeFile dir name]) := fun h => h dir name (by simp)

theorem Temporary.setInode (h : Temporary i p n s s') (x : Inode ι) : Temporary i p n s (s'.setInode n x) where
  absent := h.absent
  fresh := h.fresh
  others := h.others
  entry := h.entry
  inodes m y hy := by
    have hmn : m ≠ n := by
      rintro rfl
      rw [h.fresh] at hy
      cases hy
    simpa [Disk.setInode, Function.update_of_ne hmn] using h.inodes m y hy

variable [DecidableEq Dir]

theorem Temporary.removed (h : Temporary i p n s s') : Unchanged s (s'.setName p none) := by
  refine ⟨funext fun q => ?_, h.inodes⟩
  by_cases hqp : q = p
  · subst hqp
    simp [Disk.setName, h.absent]
  · simp [Disk.setName, hqp, h.others q hqp]

variable {resolve : Bytes → Dir} {dir name temporary : Bytes} {pid : Nat}

/-- What one run owes: `Q` at its end. -/
abbrev Alone {α : Type} (resolve : Bytes → Dir) (i : ι) (Q : α → Disk Dir ι × List FsCall → Prop) :
    Fs α → Disk Dir ι × List FsCall → Prop :=
  Wp (Logged resolve i) Eq (fun _ _ => True) Q

/-- The clean-up after an error. -/
theorem cleanUp_alone {α : Type} {e : String} {Q : Except String α → Disk Dir ι × List FsCall → Prop}
    (hQ : ∀ s' failed, Left s s' failed → Q (.error e) (s', failed)) (h : Pending i (resolve dir, temporary) n s s' failed) :
    Alone resolve i Q (do let _ ← FsCall.run (.removeFile dir temporary); return .error e) (s', failed) := by
  refine wp_call_alone fun a st hact => ⟨trivial, wp_ret_alone ?_⟩
  cases hact with
  | works hact =>
    cases hact
    refine hQ _ _ ?_
    rcases h with ⟨htemporary, hno⟩ | ⟨⟨t, hne, habsent, hpresent⟩, hno⟩
    · exact Or.inl ⟨htemporary.removed, hno⟩
    · exact Or.inr ⟨⟨t, habsent, by simpa [Disk.setName, hne] using hpresent⟩, hno⟩
  | fails hact =>
    cases hact
    refine hQ _ _ (Or.inr ⟨?_, removal_recorded dir temporary⟩)
    rcases h with ⟨htemporary, -⟩ | ⟨⟨t, -, habsent, hpresent⟩, -⟩
    · exact ⟨_, htemporary.absent, by simp [htemporary.entry]⟩
    · exact ⟨t, habsent, hpresent⟩

/-! ## The program -/

section
variable {Q : Except String (Bytes × Nat) → Disk Dir ι × List FsCall → Prop}

theorem secure_alone (herr : ∀ e s' failed, Left s s' failed → Q (.error e) (s', failed))
    (hok : ∀ temporary n s' failed, temporary ≠ name → Temporary i (resolve dir, temporary) n s s' → NoRemoval failed →
      Q (.ok (temporary, n)) (s', failed))
    (hne : temporary ≠ name) (h : Temporary i (resolve dir, temporary) n s s') (hno : NoRemoval failed) :
    Alone resolve i Q (secureTemporary dir temporary n) (s', failed) := by
  refine wp_call_alone fun a st hact => ⟨trivial, ?_⟩
  cases hact with
  | works hact =>
    cases hact with
    | setPermissions hname _ _ =>
      rw [h.entry, Option.some.injEq] at hname
      subst hname
      exact wp_ret_alone (hok _ _ _ _ hne (h.setInode _) hno)
  | fails hact =>
    cases hact
    exact cleanUp_alone (fun s' failed hleft => herr _ s' failed hleft) (Or.inl ⟨h, hno.append (by simp)⟩)

theorem createTemporary_alone (herr : ∀ e s' failed, Left s s' failed → Q (.error e) (s', failed))
    (hok : ∀ temporary n s' failed, temporary ≠ name → Temporary i (resolve dir, temporary) n s s' → NoRemoval failed →
      Q (.ok (temporary, n)) (s', failed)) :
    ∀ attempts {s' : Disk Dir ι} {failed : List FsCall}, s'.names = s.names → s'.inodes = s.inodes → NoRemoval failed →
      Alone resolve i Q (createTemporary pid dir name attempts) (s', failed) := by
  have hnothing : ∀ {e : String} {s' : Disk Dir ι} {failed : List FsCall}, s'.names = s.names → s'.inodes = s.inodes →
      NoRemoval failed → Q (.error e) (s', failed) := fun hnames hinodes hno =>
    herr _ _ _ (Or.inl ⟨⟨hnames, fun n x hx => by rw [hinodes, hx]⟩, hno⟩)
  intro attempts
  induction attempts with
  | zero => exact fun hnames hinodes hno => wp_ret_alone (hnothing hnames hinodes hno)
  | succ attempts ih =>
    intro s' failed hnames hinodes hno
    refine wp_call_alone fun sequence st hact => ⟨trivial, ?_⟩
    cases hact with
    | fails hact => cases hact
    | works hact =>
      cases hact
      refine wp_call_alone fun a st hact => ⟨trivial, ?_⟩
      cases hact with
      | works hact =>
        cases hact with
        | createExists text hthere => exact ih hnames hinodes hno
        | @createNew _ _ _ n masked hname hfree hmask =>
          rw [hnames] at hname
          rw [hinodes] at hfree
          refine secure_alone herr hok (temporaryName_ne name pid _) (Temporary.mk hname hfree (fun q hq => ?_) ?_ ?_) hno
          · simp [Disk.setName, Disk.setInode, hq, hnames]
          · simp [Disk.setName, Disk.setInode]
          · intro m x hx
            have hmn : m ≠ n := by
              rintro rfl
              rw [hfree] at hx
              cases hx
            simp [Disk.setName, Disk.setInode, hmn, hinodes, hx]
      | fails hact =>
        cases hact with
        | createNew e =>
          have hno' := hno.append (c := .createNew dir (temporaryName name pid (s'.sequence pid)) 0o600) (by simp)
          change Alone _ _ _ (if e.alreadyExists = true then _ else _) _
          split
          · exact ih hnames hinodes hno'
          · exact wp_ret_alone (hnothing hnames hinodes hno')

end

/-- What an installation does: the target is all that is new, or it is left to the clean-up. -/
def AfterInstall (i : ι) (t p : Dir × Bytes) (n : Nat) (s : Disk Dir ι) : Except String Unit → Disk Dir ι × List FsCall → Prop
  | .ok (), st => Added t s st.1 ∧ NoRemoval st.2
  | .error _, st => Pending i p n s st.1 st.2

/-- The key under both names. -/
structure BothNames (i : ι) (t p : Dir × Bytes) (n : Nat) (s s' : Disk Dir ι) : Prop where
  target : s.names t = none
  temporary : s.names p = none
  others : ∀ q, q ≠ p → q ≠ t → s'.names q = s.names q
  linked : s'.names t = some ⟨n, some i⟩
  inodes : ∀ m x, s.inodes m = some x → s'.inodes m = some x

theorem finish_alone (hne : temporary ≠ name) (h : BothNames i (resolve dir, name) (resolve dir, temporary) n s s')
    (hno : NoRemoval failed) :
    Alone resolve i (AfterInstall i (resolve dir, name) (resolve dir, temporary) n s) (finishTemporary dir temporary)
      (s', failed) := by
  have hplaces : (resolve dir, name) ≠ (resolve dir, temporary) := by simpa using hne.symm
  refine wp_call_alone fun a st hact => ⟨trivial, ?_⟩
  cases hact with
  | fails hact =>
    cases hact
    refine wp_ret_alone (Or.inr ⟨⟨_, hplaces, h.target, ?_⟩, removal_recorded dir temporary⟩)
    simp [h.linked]
  | works hact =>
    cases hact
    have hadded : Added (resolve dir, name) s (s'.setName (resolve dir, temporary) none) := by
      refine ⟨h.target, by simp [Disk.setName, hplaces, h.linked], fun q hq => ?_, h.inodes⟩
      by_cases hqp : q = (resolve dir, temporary)
      · subst hqp
        simp [Disk.setName, h.temporary]
      · simp [Disk.setName, hqp, h.others q hqp hq]
    refine wp_call_alone fun a st hact => ⟨trivial, ?_⟩
    cases hact with
    | fails hact =>
      cases hact
      exact wp_ret_alone ⟨hadded, hno.append (by simp)⟩
    | works hact =>
      cases hact
      refine wp_call_alone fun a st hact => ⟨trivial, wp_ret_alone ?_⟩
      cases hact with
      | works hact =>
        cases hact
        exact ⟨hadded, hno⟩
      | fails hact =>
        cases hact
        exact ⟨hadded, hno.append (by simp)⟩

theorem installTemporary_alone {display : Bytes → String} {target contents : Bytes} (hdir : parent target = some dir)
    (hname : fileName target = some name) (hne : temporary ≠ name)
    (h : Temporary i (resolve dir, temporary) n s s') (hno : NoRemoval failed) :
    Alone resolve i (AfterInstall i (resolve dir, name) (resolve dir, temporary) n s)
      (installTemporary display target dir temporary n contents) (s', failed) := by
  refine wp_call_alone fun a st hact => ⟨trivial, ?_⟩
  cases hact with
  | fails hact =>
    cases hact
    exact wp_ret_alone (Or.inl ⟨h.setInode _, hno.append (by simp)⟩)
  | works hact =>
    cases hact with
    | @writeAll _ _ before x _ _ =>
    have hwritten := h.setInode { x with kind := .regular (before ++ contents) }
    refine wp_call_alone fun a st hact => ⟨trivial, ?_⟩
    cases hact with
    | fails hact =>
      cases hact
      exact wp_ret_alone (Or.inl ⟨hwritten, hno.append (by simp)⟩)
    | works hact =>
      cases hact
      refine wp_call_alone fun a st hact => ⟨trivial, ?_⟩
      cases hact with
      | fails hact =>
        cases hact with
        | hardLink e =>
          change Alone _ _ _ (if e.alreadyExists = true then _ else _) _
          split <;> exact wp_ret_alone (Or.inl ⟨hwritten, hno.append (by simp)⟩)
      | works hact =>
        cases hact with
        | linkExists => exact wp_ret_alone (Or.inl ⟨hwritten, hno⟩)
        | linkRefused e =>
          change Alone _ _ _ (if e.alreadyExists = true then _ else _) _
          split <;> exact wp_ret_alone (Or.inl ⟨hwritten, hno⟩)
        | hardLink hold _ _ hto hnew _ htarget =>
          obtain rfl := Option.some.inj (hdir.symm.trans hto)
          obtain rfl := Option.some.inj (hname.symm.trans hnew)
          rw [hwritten.entry, Option.some.injEq] at hold
          subst hold
          have hplaces : (resolve dir, name) ≠ (resolve dir, temporary) := by simpa using hne.symm
          refine finish_alone hne (BothNames.mk ?_ h.absent (fun q hp hq => ?_) ?_ hwritten.inodes) hno
          · rw [← hwritten.others _ hplaces]
            exact htarget
          · rw [← hwritten.others q hp]
            exact Function.update_of_ne hq _ _
          · exact Function.update_self ..

/-- What `write_private_key` leaves. -/
def AfterWrite (resolve : Bytes → Dir) (target : Bytes) (s : Disk Dir ι) : Except String Unit → Disk Dir ι × List FsCall → Prop
  | .ok _, st => (∃ t, place resolve target = some t ∧ Added t s st.1) ∧ NoRemoval st.2
  | .error _, st => Left s st.1 st.2

theorem writePrivateKey_alone (resolve : Bytes → Dir) (i : ι) (s : Disk Dir ι) (display : Bytes → String) (pid : Nat) (target contents : Bytes) :
    Alone resolve i (AfterWrite resolve target s) (writePrivateKey display pid target contents) (s, []) := by
  have hnothing : ∀ {failed : List FsCall}, NoRemoval failed → Left s s failed := fun hno => Or.inl ⟨.refl s, hno⟩
  refine wp_call_alone fun present st hact => ⟨trivial, ?_⟩
  obtain ⟨failed, rfl, hno⟩ : ∃ failed, st = (s, failed) ∧ NoRemoval failed := by
    cases hact with
    | works hact => cases hact; exact ⟨_, rfl, fun _ _ h => by cases h⟩
    | fails hact => cases hact; exact ⟨_, rfl, fun _ _ h => by simp at h⟩
  cases present with
  | true => exact wp_ret_alone (hnothing hno)
  | false =>
  cases hdir : parent target with
  | none => exact wp_ret_alone (hnothing hno)
  | some dir =>
  refine wp_call_alone fun isDir st hact => ⟨trivial, ?_⟩
  obtain ⟨failed, rfl, hno⟩ : ∃ failed, st = (s, failed) ∧ NoRemoval failed := by
    cases hact with
    | works hact => cases hact; exact ⟨_, rfl, hno⟩
    | fails hact => cases hact; exact ⟨_, rfl, hno.append (by simp)⟩
  cases isDir with
  | false => exact wp_ret_alone (hnothing hno)
  | true =>
  cases hname : (fileName target).filter fun name => (fromUtf8 name).isSome with
  | none => exact wp_ret_alone (hnothing hno)
  | some name =>
  have hplace : place resolve target = some (resolve dir, name) := by
    rw [place, hdir, (Option.filter_eq_some_iff.1 hname).1]
    rfl
  refine Wp.bind (p := createTemporary pid dir name 100) interference_eq ?_
  refine createTemporary_alone ?_ ?_ 100 rfl rfl hno
  · exact fun e s' failed hleft => wp_ret_alone hleft
  intro temporary n s' failed hne htemporary hno
  refine Wp.bind (p := installTemporary display target dir temporary n contents) interference_eq
    ((installTemporary_alone hdir (Option.filter_eq_some_iff.1 hname).1 hne htemporary hno).mono fun r st hr => ?_)
  cases r with
  | ok _ => exact wp_ret_alone ⟨⟨_, hplace, hr.1⟩, hr.2⟩
  | error e => exact cleanUp_alone (fun s' failed hleft => hleft) hr

end

/-! ## `generate` -/

section
variable {Key ι Dir : Type} [DecidableEq Dir]

omit [DecidableEq Dir] in
theorem unchanged_iff_of_left {s s' : Disk Dir ι} {failed : List FsCall} (h : Left s s' failed) :
    Unchanged s s' ↔ NoRemoval failed := by
  rcases h with ⟨hsame, hno⟩ | ⟨⟨p, habsent, hpresent⟩, hno⟩
  · exact iff_of_true hsame hno
  · exact iff_of_false (fun hsame => hpresent (by rw [hsame.names, habsent])) hno

/-- Once the key is written there is no error. -/
theorem generated_ne_err (env : KeygenEnv Key) (options : GenerateOptions) (domain selector : DnsName) (publicDer : Bytes)
    (e : String) : generated env options domain selector publicDer ≠ .err e := by
  unfold generated dnsRecord encodeBlock
  split <;> simp

/-- **No trace of a failure, and success adds the target alone**, exactly when no `remove_file` has
failed. -/
theorem generate_traceless (resolve : Bytes → Dir) (i : ι) (env : KeygenEnv Key) (options : GenerateOptions)
    {s s' : Disk Dir ι} {failed : List FsCall} {r : Exec GeneratedKey}
    (hrun : Prog.Returns (Logged resolve i) (generate env options) (s, []) r (s', failed)) :
    Traceless resolve options.privateKey s r s' ↔ NoRemoval failed := by
  have halone := fun privatePem => writePrivateKey_alone resolve i s env.display env.pid options.privateKey privatePem
  have hcases := generate_cases hrun
  generalize hstart : (s, ([] : List FsCall)) = start at hcases
  generalize hend : (s', failed) = final at hcases
  cases hcases with
  | unprepared _ =>
    cases hstart.trans hend.symm
    exact unchanged_iff_of_left (Or.inl ⟨.refl s, fun _ _ h => by cases h⟩)
  | failed _ hwrite =>
    subst hstart hend
    have hafter := Wp.returns (fun _ => rfl) (halone _) hwrite
    exact unchanged_iff_of_left hafter
  | written _ hwrite =>
    subst hstart hend
    have hafter := Wp.returns (fun _ => rfl) (halone _) hwrite
    refine iff_of_true ?_ hafter.2
    cases hresult : generated env options _ _ _ with
    | ok g => exact hafter.1
    | err e => exact absurd hresult (generated_ne_err env options _ _ _ e)
    | panic => trivial

end

/-- A run in which every call works. -/
theorem generate_traceless_example : ∃ r s', Prog.Returns (Logged id ())
      (generate exampleKeygen (exampleOptions "Example.COM." "S1")) (Disk.empty, []) r (s', []) ∧
    Traceless id (exampleOptions "Example.COM." "S1").privateKey Disk.empty r s' := by
  let temporary := temporaryName (ascii "k") 1 0
  let s' := (linked id () examplePem (ascii "/") temporary (ascii "k") 0 1 Disk.empty).setName
    (ascii "/", temporary) none
  have hwrite : Prog.Returns (Logged id ()) (writePrivateKey (fun _ => "/k") 1 (ascii "/k") examplePem) (Disk.empty, [])
      (.ok ()) (s', []) :=
    writePrivateKey_works (f := fun s => (s, [])) Logged.works (by decide) (by decide) (by decide) rfl rfl rfl
  obtain ⟨r, hrun⟩ : ∃ r, Prog.Returns (Logged id ()) (generate exampleKeygen (exampleOptions "Example.COM." "S1"))
      (Disk.empty, []) r (s', []) := ⟨_, generate_returns example_prepared hwrite⟩
  have hno : NoRemoval [] := fun _ _ h => by cases h
  exact ⟨r, s', hrun, (generate_traceless id () exampleKeygen _ hrun).2 hno⟩

/-- **An error that leaves the key behind**: the only call to fail is the removal of the temporary
file, and the clean-up after it works. -/
theorem removal_fails : ∃ e s', Prog.Returns (Logged id ()) (generate exampleKeygen (exampleOptions "Example.COM." "S1"))
      (Disk.empty, []) (.err e) (s', [.removeFile (ascii "/") (temporaryName (ascii "k") 1 0)]) ∧
    ¬ Unchanged Disk.empty s' ∧ place id (ascii "/k") = some (ascii "/", ascii "k") ∧
    s'.look (ascii "/", ascii "k") = some (keyInode () examplePem) := by
  let temporary := temporaryName (ascii "k") 1 0
  let s₁ := linked id () examplePem (ascii "/") temporary (ascii "k") 0 1 Disk.empty
  let s' := s₁.setName (ascii "/", temporary) none
  have htidy : Prog.Returns (Logged id ()) (tidy (ascii "/") temporary) (s₁, [])
      (.error "cannot remove temporary key file: Permission denied") (s', [.removeFile (ascii "/") temporary]) := by
    have hlook : s₁.look (id (ascii "/"), temporary) = some (keyInode () examplePem) := rfl
    have hremove : FsCall.Works id () s₁ (.removeFile (ascii "/") temporary) (.ok ()) s' :=
      .removeFile hlook (by simp [keyInode])
    refine .call (a := .error ⟨false, "Permission denied"⟩) (.fails (.removeFile _)) ?_
    exact .call (a := .ok ()) (.works hremove) .ret
  have hwrite : Prog.Returns (Logged id ()) (writePrivateKey (fun _ => "/k") 1 (ascii "/k") examplePem) (Disk.empty, [])
      (.error "cannot remove temporary key file: Permission denied") (s', [.removeFile (ascii "/") temporary]) :=
    writePrivateKey_links (f := fun s => (s, [])) Logged.works (by decide) (by decide) (by decide) rfl rfl rfl rfl htidy
  refine ⟨"cannot remove temporary key file: Permission denied", s', ?_, fun h => ?_, by decide, rfl⟩
  · rw [generate, example_prepared]
    exact .bind hwrite .ret
  · have hnew : s'.names (ascii "/", ascii "k") = none := congrFun h.names _
    cases hnew

end DkimLite
