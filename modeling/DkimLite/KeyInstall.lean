import DkimLite.Keygen
import DkimLite.Rust.Owned

/-!
# Installing a key among other processes (`src/keygen.rs:74-143`)

Any number of calls of `write_private_key` run side by side, on the same target or not, while other
processes create files; every file-system call may fail. `Guarantee` is what each call of the
program keeps: what others made, whatever stands at the target, and that the target is the whole
key if this call made it. `writePrivateKey_wp` walks through the program once;
`installed_whole` is the result for any order of steps.

The temporary file is never the target, because its name is longer (`temporaryName_ne`).
-/

namespace DkimLite
open Rust

/-- Where a path leads: a directory and a name in it. -/
def place {Dir : Type} (resolve : Bytes → Dir) (target : Bytes) : Option (Dir × Bytes) := do
  let dir ← parent target
  let name ← fileName target
  return (resolve dir, name)

theorem temporaryName_ne (name : Bytes) (pid sequence : Nat) : temporaryName name pid sequence ≠ name := by
  intro h
  have hlen := congrArg List.length h
  simp only [temporaryName, List.length_append, List.length_singleton] at hlen
  omega

/-! ## What each step keeps -/

section
variable {ι Dir : Type} {i : ι} {s s' : Disk Dir ι}

/-- The whole key, for its owner alone. -/
def keyInode (i : ι) (contents : Bytes) : Inode ι := ⟨.regular contents, 0o600, some i⟩

/-- What `i` put at `t`, if it did, is the whole key. -/
def Complete (i : ι) (t : Dir × Bytes) (contents : Bytes) (s : Disk Dir ι) : Prop :=
  ∀ n, s.names t = some ⟨n, some i⟩ → s.inodes n = some (keyInode i contents)

structure Guarantee (i : ι) (dest : Option (Dir × Bytes)) (contents : Bytes) (s s' : Disk Dir ι) : Prop where
  spared : Disk.Spared i s s'
  target : ∀ t, dest = some t → ∀ e, s.names t = some e → s'.names t = some e
  complete : ∀ t, dest = some t → Complete i t contents s → Complete i t contents s'

variable {contents : Bytes}

theorem Complete.kept {t : Dir × Bytes} (h : Complete i t contents s) (hs : Disk.Kept i s s') : Complete i t contents s' :=
  fun n hn => (hs.inodes n _ rfl).2 (h n ((hs.names t _ rfl).1 hn))

theorem Guarantee.of_eq {dest : Option (Dir × Bytes)} (hnames : s'.names = s.names) (hinodes : s'.inodes = s.inodes) :
    Guarantee i dest contents s s' where
  spared := ⟨fun p => Or.inl (by rw [hnames]), fun n => Or.inl (by rw [hinodes])⟩
  target t _ e he := by rw [hnames, he]
  complete t _ h n hn := by
    rw [hinodes]
    exact h n (by rw [← hnames, hn])

/-- As long as nothing at the target is of `i`. -/
theorem Guarantee.early {t : Dir × Bytes} {held : Set (Dir × Bytes)} {n : Nat} (hspared : Disk.Spared i s s')
    (hheld : Disk.Holds i held n s) (ht : t ∉ held) (hsame : s'.names t = s.names t) :
    Guarantee i (some t) contents s s' where
  spared := hspared
  target := by
    rintro _ ⟨⟩ e he
    rw [hsame, he]
  complete := by
    rintro _ ⟨⟩ - m hm
    rw [hsame] at hm
    exact absurd ((hheld t m).1 hm).1 ht

variable [DecidableEq Dir] {resolve : Bytes → Dir}

/-- The temporary file may be removed. -/
theorem Guarantee.removes {dir name temporary : Bytes} {a : Except FsError Unit} {m : Nat}
    (hact : (FsCall.removeFile dir temporary).Acts resolve i s a s') (hmine : s.names (resolve dir, temporary) = some ⟨m, some i⟩)
    (hne : temporary ≠ name) : Guarantee i (some (resolve dir, name)) contents s s' := by
  have hown : (FsCall.removeFile dir temporary).Own resolve i s := by
    intro e he
    rw [hmine, Option.some.injEq] at he
    rw [← he]
  have hspared := FsCall.spared hact hown
  rcases hact with hact | hact
  · cases hact with
    | removeFile _ _ =>
      have hsame : (s.setName (resolve dir, temporary) none).names (resolve dir, name) = s.names (resolve dir, name) :=
        Function.update_of_ne (by simpa using hne.symm) _ _
      refine ⟨hspared, ?_, ?_⟩
      · rintro _ ⟨⟩ e he
        rw [hsame, he]
      · rintro _ ⟨⟩ h n hn
        rw [hsame] at hn
        exact h n hn
  · cases hact
    exact .of_eq rfl rfl

end

/-! ## The program -/

section
variable {ι Dir : Type} [DecidableEq Dir] {resolve : Bytes → Dir} {i : ι} {contents dir name : Bytes} {pid : Nat}

/-- The permissions are set, or the file is removed. -/
theorem secure_wp {Q : Except String (Bytes × Nat) → Disk Dir ι → Prop} (herr : ∀ e s, Q (.error e) s)
    (hok : ∀ temporary n s, temporary ≠ name →
      Disk.Knows i {(resolve dir, temporary)} n ⟨.regular [], 0o600, some i⟩ s → Q (.ok (temporary, n)) s)
    {temporary : Bytes} (hne : temporary ≠ name) {n mode : Nat} {s : Disk Dir ι}
    (h : Disk.Knows i {(resolve dir, temporary)} n ⟨.regular [], mode, some i⟩ s) :
    Wp (fun s c => FsCall.Acts resolve i s c) (Disk.Kept i) (Guarantee i (some (resolve dir, name)) contents) Q
      (secureTemporary dir temporary n) s := by
  refine wp_call Disk.knows_stable (fun s a s₁ h hact => ?_) h
  have htemporary : s.look (resolve dir, temporary) = some _ := h.look (Set.mem_singleton _)
  have hspared : Disk.Spared i s s₁ := by
    refine FsCall.spared hact fun x hx => ?_
    rw [htemporary, Option.some.injEq] at hx
    rw [← hx]
  rcases hact with hact | hact
  · cases hact with
    | setPermissions hname hinode _ =>
      rw [h.holds.entry (Set.mem_singleton _), Option.some.injEq] at hname
      subst hname
      rw [h.inode, Option.some.injEq] at hinode
      subst hinode
      exact ⟨.early hspared h.holds (by simpa using hne.symm) rfl,
        fun s' hs => hok _ _ s' hne (Disk.knows_stable hs (h.setInode rfl))⟩
  · cases hact
    refine ⟨.of_eq rfl rfl, wp_call Disk.knows_stable (fun s a s₁ h hact => ?_) h⟩
    exact ⟨.removes hact (h.holds.entry (Set.mem_singleton _)) hne, fun s' _ => herr _ s'⟩

theorem createTemporary_wp {Q : Except String (Bytes × Nat) → Disk Dir ι → Prop} (herr : ∀ e s, Q (.error e) s)
    (hok : ∀ temporary n s, temporary ≠ name →
      Disk.Knows i {(resolve dir, temporary)} n ⟨.regular [], 0o600, some i⟩ s → Q (.ok (temporary, n)) s) :
    ∀ attempts {s : Disk Dir ι}, Disk.Holds i ∅ 0 s →
      Wp (fun s c => FsCall.Acts resolve i s c) (Disk.Kept i) (Guarantee i (some (resolve dir, name)) contents) Q
        (createTemporary pid dir name attempts) s := by
  intro attempts
  induction attempts with
  | zero => exact fun _ s' _ => herr _ s'
  | succ attempts ih =>
    intro s h
    rw [createTemporary]
    refine wp_call Disk.holds_stable (fun s sequence s₁ h hact => ?_) h
    have hnames : s₁.names = s.names ∧ s₁.inodes = s.inodes := by
      rcases hact with hact | hact <;> cases hact
      exact ⟨rfl, rfl⟩
    have h₁ : Disk.Holds i ∅ 0 s₁ := by
      intro p m
      rw [hnames.1]
      exact h p m
    refine ⟨.of_eq hnames.1 hnames.2, ?_⟩
    have hne := temporaryName_ne name pid sequence
    refine wp_call Disk.holds_stable (fun s₁ a s₂ h₁ hact => ?_) h₁
    have hspared : Disk.Spared i s₁ s₂ := FsCall.spared hact trivial
    rcases hact with hact | hact
    · cases hact with
      | createExists text hthere =>
        refine ⟨.of_eq rfl rfl, ?_⟩
        exact ih h₁
      | @createNew _ _ _ n masked hname hfree hmask =>
        refine ⟨.early hspared h₁ (Set.notMem_empty _) (Function.update_of_ne (by simpa using hne.symm) _ _), ?_⟩
        have h₂ : Disk.Knows i {(resolve dir, temporaryName name pid sequence)} n ⟨.regular [], masked, some i⟩
            ((s₁.setName (resolve dir, temporaryName name pid sequence) (some ⟨n, some i⟩)).setInode n
              ⟨.regular [], masked, some i⟩) := by
          refine ⟨?_, by simp [Disk.setInode], rfl⟩
          have hins := (h₁.none_held n).insert hname
          rwa [insert_empty_eq] at hins
        exact secure_wp herr hok hne h₂
    · cases hact with
      | createNew e =>
        refine ⟨.of_eq rfl rfl, ?_⟩
        change Wp _ _ _ _ (if e.alreadyExists = true then _ else _) s₁
        split
        · exact ih h₁
        · exact fun s' _ => herr _ s'

/-- What is known after the installation: the target is there, whose path ends in its name, or the temporary file
still is. -/
def Installed (resolve : Bytes → Dir) (i : ι) (target dir temporary name : Bytes) : Except String Unit → Disk Dir ι → Prop
  | .error _, s => ∃ m, s.names (resolve dir, temporary) = some ⟨m, some i⟩
  | .ok (), s => name <:+ target ∧ ∃ m, s.names (resolve dir, name) = some ⟨m, some i⟩

/-- The temporary name goes and the directory is synced. -/
theorem linked_wp {target temporary : Bytes} (hends : name <:+ target) (hne : temporary ≠ name) {n : Nat} {s : Disk Dir ι}
    (h : Disk.Knows i {(resolve dir, name), (resolve dir, temporary)} n (keyInode i contents) s) :
    Wp (fun s c => FsCall.Acts resolve i s c) (Disk.Kept i) (Guarantee i (some (resolve dir, name)) contents)
      (Installed resolve i target dir temporary name) (finishTemporary dir temporary) s := by
  refine wp_call Disk.knows_stable (fun s a s₁ h hact => ?_) h
  have hmine := h.holds.entry (p := (resolve dir, temporary)) (by simp)
  refine ⟨.removes hact hmine hne, ?_⟩
  rcases hact with hact | hact
  swap
  · cases hact
    exact fun s' hs => ⟨n, (Disk.knows_stable hs h).holds.entry (by simp)⟩
  cases hact
  -- from here on only the target is held
  have hkept : Disk.Knows i ({(resolve dir, name), (resolve dir, temporary)} \ {(resolve dir, temporary)}) n
      (keyInode i contents) (s.setName (resolve dir, temporary) none) := ⟨h.holds.remove _, h.inode, rfl⟩
  have hdone : ∀ {s : Disk Dir ι}, Disk.Knows i ({(resolve dir, name), (resolve dir, temporary)} \
      {(resolve dir, temporary)}) n (keyInode i contents) s → ∀ s', Disk.Kept i s s' →
      name <:+ target ∧ ∃ m, s'.names (resolve dir, name) = some ⟨m, some i⟩ := fun h s' hs =>
    ⟨hends, n, (Disk.knows_stable hs h).holds.entry (by simpa using hne.symm)⟩
  refine wp_call Disk.knows_stable (fun s a s₁ h hact => ?_) hkept
  rcases hact with hact | hact
  swap
  · cases hact
    exact ⟨.of_eq rfl rfl, hdone h⟩
  cases hact
  refine ⟨.of_eq rfl rfl, wp_call Disk.knows_stable (fun s a s₁ h hact => ?_) h⟩
  rcases hact with hact | hact <;> cases hact <;> exact ⟨.of_eq rfl rfl, hdone h⟩

/-- The key is written to the temporary file and linked; an error leaves the temporary file. -/
theorem installTemporary_wp {display : Bytes → String} {target temporary : Bytes} (hdir : parent target = some dir)
    (hname : fileName target = some name) (hne : temporary ≠ name) {n : Nat} {s : Disk Dir ι}
    (h : Disk.Knows i {(resolve dir, temporary)} n ⟨.regular [], 0o600, some i⟩ s) :
    Wp (fun s c => FsCall.Acts resolve i s c) (Disk.Kept i) (Guarantee i (some (resolve dir, name)) contents)
      (Installed resolve i target dir temporary name) (installTemporary display target dir temporary n contents) s := by
  have hearly : (resolve dir, name) ∉ ({(resolve dir, temporary)} : Set (Dir × Bytes)) := by simpa using hne.symm
  have hfailed : ∀ {x : Inode ι} {s : Disk Dir ι}, Disk.Knows i {(resolve dir, temporary)} n x s →
      ∀ s', Disk.Kept i s s' → ∃ m, s'.names (resolve dir, temporary) = some ⟨m, some i⟩ :=
    fun h s' hs => ⟨n, (Disk.knows_stable hs h).holds.entry (Set.mem_singleton _)⟩
  have hrefused : ∀ {x : Inode ι} {s : Disk Dir ι} (e : FsError), Disk.Knows i {(resolve dir, temporary)} n x s →
      Wp (fun s c => FsCall.Acts resolve i s c) (Disk.Kept i) (Guarantee i (some (resolve dir, name)) contents)
        (Installed resolve i target dir temporary name)
        (if e.alreadyExists then return .error ("refusing to overwrite " ++ display target)
          else return .error ("cannot install private key " ++ display target ++ ": " ++ e.text)) s := by
    intro x s e h
    split <;> exact hfailed h
  refine wp_call Disk.knows_stable (fun s a s₁ h hact => ?_) h
  have hspared : Disk.Spared i s s₁ := by
    refine FsCall.spared hact fun x hx => ?_
    rw [h.inode, Option.some.injEq] at hx
    rw [← hx]
  rcases hact with hact | hact
  · cases hact with
    | writeAll hinode hkind =>
      rw [h.inode, Option.some.injEq] at hinode
      subst hinode
      cases hkind
      refine ⟨.early hspared h.holds hearly rfl, ?_⟩
      refine wp_call Disk.knows_stable (fun s a s₁ h hact => ?_) (h.setInode (y := keyInode i contents) rfl)
      rcases hact with hact | hact <;> cases hact
      · refine ⟨.of_eq rfl rfl, wp_call Disk.knows_stable (fun s a s₁ h hact => ?_) h⟩
        have hspared : Disk.Spared i s s₁ := FsCall.spared hact trivial
        rcases hact with hact | hact
        · cases hact with
          | linkExists => exact ⟨.of_eq rfl rfl, hfailed h⟩
          | linkRefused e => exact ⟨.of_eq rfl rfl, hrefused e h⟩
          | hardLink hold hinode hkind hto hnew hends htarget =>
            obtain rfl := Option.some.inj (hdir.symm.trans hto)
            obtain rfl := Option.some.inj (hname.symm.trans hnew)
            rw [h.holds.entry (Set.mem_singleton _), Option.some.injEq] at hold
            subst hold
            have hlinked := h.holds.insert htarget
            refine ⟨⟨hspared, ?_, ?_⟩, linked_wp hends hne ⟨hlinked, h.inode, rfl⟩⟩
            · rintro _ ⟨⟩ e he
              rw [htarget] at he
              cases he
            · rintro _ ⟨⟩ - m hm
              obtain ⟨-, rfl⟩ := (hlinked _ m).1 hm
              exact h.inode
        · cases hact with
          | hardLink e => exact ⟨.of_eq rfl rfl, hrefused e h⟩
      · exact ⟨.of_eq rfl rfl, hfailed h⟩
  · cases hact with
    | writeAll e hinode hkind =>
      rw [h.inode, Option.some.injEq] at hinode
      subst hinode
      exact ⟨.early hspared h.holds hearly rfl, hfailed (h.setInode rfl)⟩

/-- **The walk through `write_private_key`.** -/
theorem writePrivateKey_wp {display : Bytes → String} {target : Bytes} {s : Disk Dir ι} (h : Disk.Holds i ∅ 0 s) :
    Wp (fun s c => FsCall.Acts resolve i s c) (Disk.Kept i) (Guarantee i (place resolve target) contents)
      (fun r s => r = .ok () →
        EndsInName target ∧ ∃ t m, place resolve target = some t ∧ s.names t = some ⟨m, some i⟩)
      (writePrivateKey display pid target contents) s := by
  refine wp_call Disk.holds_stable (fun s present s₁ h hact => ?_) h
  have hsame : s₁ = s := by rcases hact with hact | hact <;> cases hact <;> rfl
  subst hsame
  refine ⟨.of_eq rfl rfl, ?_⟩
  cases present with
  | true => exact fun s' _ hr => by cases hr
  | false =>
  cases hdir : parent target with
  | none => exact fun s' _ hr => by cases hr
  | some dir =>
  refine wp_call Disk.holds_stable (fun s isDir s₁ h hact => ?_) h
  have hsame : s₁ = s := by rcases hact with hact | hact <;> cases hact <;> rfl
  subst hsame
  refine ⟨.of_eq rfl rfl, ?_⟩
  cases isDir with
  | false => exact fun s' _ hr => by cases hr
  | true =>
  cases hname : (fileName target).filter fun name => (fromUtf8 name).isSome with
  | none => exact fun s' _ hr => by cases hr
  | some name =>
  have hplace : place resolve target = some (resolve dir, name) := by
    rw [place, hdir, (Option.filter_eq_some_iff.1 hname).1]
    rfl
  rw [hplace]
  refine Wp.bind (p := createTemporary pid dir name 100) (Disk.kept_interference i) ?_
  refine createTemporary_wp ?_ ?_ 100 h
  · exact fun e s s' _ hr => by cases hr
  intro temporary n s hne h
  refine Wp.bind (p := installTemporary display target dir temporary n contents) (Disk.kept_interference i)
    ((installTemporary_wp hdir (Option.filter_eq_some_iff.1 hname).1 hne h).mono fun r s hr => ?_)
  cases r with
  | ok _ =>
    obtain ⟨hends, m, hm⟩ := hr
    exact fun s' hs _ => ⟨⟨name, (Option.filter_eq_some_iff.1 hname).1, hends⟩, _, m, rfl, (hs.names _ _ rfl).2 hm⟩
  | error e =>
    -- the temporary file is still of this call
    obtain ⟨m, hm⟩ := hr
    refine wp_call (P := fun s => s.names (resolve dir, temporary) = some ⟨m, some i⟩)
      (fun s s' hs h => (hs.names _ _ rfl).2 h) (fun s a s₁ h hact => ?_) hm
    exact ⟨.removes hact h hne, fun s' _ hr => by cases hr⟩

end

/-! ## Runs -/

section
variable {ι Dir S : Type} [DecidableEq Dir] {resolve : Bytes → Dir} {i : ι} {act : S → (c : FsCall) → c.Answer → S → Prop}
  {f : Disk Dir ι → S} {s : Disk Dir ι} {dir name : Bytes} {n pid : Nat}

def Disk.empty : Disk Dir ι := ⟨fun _ => none, fun _ => none, fun _ => 0⟩

/-- The disk with the key under both names. -/
def linked (resolve : Bytes → Dir) (i : ι) (contents dir temporary name : Bytes) (n pid : Nat) (s : Disk Dir ι) : Disk Dir ι where
  names := Function.update (Function.update s.names (resolve dir, temporary) (some ⟨n, some i⟩)) (resolve dir, name)
    (some ⟨n, some i⟩)
  inodes := Function.update s.inodes n (some (keyInode i contents))
  sequence := Function.update s.sequence pid (s.sequence pid + 1)

/-- What is left to do once the key is linked. -/
def tidy (dir temporary : Bytes) : Fs (Except String Unit) := do
  match ← finishTemporary dir temporary with
  | .error e => do
    let _ ← FsCall.run (.removeFile dir temporary)
    return .error e
  | .ok () => return .ok ()

/-- When nothing is in the way the key is linked. `f` is the disk as part of a larger state. -/
theorem writePrivateKey_links (hact : ∀ {s c a s'}, FsCall.Works resolve i s c a s' → act (f s) c a (f s'))
    {display : Bytes → String} {target contents temporary : Bytes} (hdir : parent target = some dir)
    (hname : (fileName target).filter (fun name => (fromUtf8 name).isSome) = some name) (hends : name <:+ target)
    (htemporary : temporaryName name pid (s.sequence pid) = temporary) (hfree : s.inodes n = none)
    (ht : s.names (resolve dir, temporary) = none) (htarget : s.names (resolve dir, name) = none)
    {r : Except String Unit} {s' : S} (hrest : Prog.Returns act (tidy dir temporary)
      (f (linked resolve i contents dir temporary name n pid s)) r s') :
    Prog.Returns act (writePrivateKey display pid target contents) (f s) r s' := by
  subst htemporary
  have hne : (resolve dir, name) ≠ (resolve dir, temporaryName name pid (s.sequence pid)) := by
    simpa using (temporaryName_ne name pid (s.sequence pid)).symm
  have hplace : ∀ dir' name', parent target = some dir' → fileName target = some name' → dir' = dir ∧ name' = name := by
    intro dir' name' hd hn
    rw [hdir, Option.some.injEq] at hd
    rw [(Option.filter_eq_some_iff.1 hname).1, Option.some.injEq] at hn
    exact ⟨hd.symm, hn.symm⟩
  simp only [writePrivateKey, hdir, hname]
  refine .call (a := false) (hact (.exists fun dir' name' hd hn => ?_)) ?_
  · obtain ⟨rfl, rfl⟩ := hplace dir' name' hd hn
    simp [Disk.look, htarget]
  refine .call (a := true) (hact (.isDir true)) ?_
  -- the file is made, secured, written and linked
  let start : Disk Dir ι := { s with sequence := Function.update s.sequence pid (s.sequence pid + 1) }
  let made := (start.setName (resolve dir, temporaryName name pid (s.sequence pid)) (some ⟨n, some i⟩)).setInode n
    ⟨.regular [], 0o600, some i⟩
  let secured := made.setInode n ⟨.regular [], 0o600, some i⟩
  let written := secured.setInode n (keyInode i contents)
  have hentry : made.names (resolve dir, temporaryName name pid (s.sequence pid)) = some ⟨n, some i⟩ := Function.update_self ..
  have hmake : FsCall.Works resolve i start (.createNew dir (temporaryName name pid (s.sequence pid)) 0o600) (.ok n) made :=
    .createNew ht hfree rfl
  have hsecure : FsCall.Works resolve i made (.setPermissions dir (temporaryName name pid (s.sequence pid)) 0o600) (.ok ())
      secured := .setPermissions hentry (Function.update_self ..) (by simp)
  have hwrite : FsCall.Works resolve i secured (.writeAll n contents) (.ok ()) written :=
    .writeAll (x := ⟨.regular [], 0o600, some i⟩) (Function.update_self ..) rfl
  have htarget' : written.names (resolve dir, name) = none := by
    rw [← htarget]
    exact Function.update_of_ne hne _ _
  have hlink : FsCall.Works resolve i written (.hardLink dir (temporaryName name pid (s.sequence pid)) target) (.ok ())
      (written.setName (resolve dir, name) (some ⟨n, some i⟩)) :=
    .hardLink (e := ⟨n, some i⟩) hentry (Function.update_self ..) (by simp [keyInode]) hdir
      (Option.filter_eq_some_iff.1 hname).1 hends htarget'
  have hlinked : written.setName (resolve dir, name) (some ⟨n, some i⟩) =
      linked resolve i contents dir (temporaryName name pid (s.sequence pid)) name n pid s := by
    simp [written, secured, made, start, linked, Disk.setName, Disk.setInode]
  rw [← hlinked] at hrest
  have hcreated : Prog.Returns act (createTemporary pid dir name 100) (f s)
      (.ok (temporaryName name pid (s.sequence pid), n)) (f secured) := by
    refine .call (a := s.sequence pid) (hact .nextSequence) ?_
    refine .call (a := .ok n) (hact hmake) ?_
    exact .call (a := .ok ()) (hact hsecure) .ret
  refine Prog.Returns.bind (p := createTemporary pid dir name 100) hcreated ?_
  refine .call (a := .ok ()) (hact hwrite) ?_
  refine .call (a := .ok ()) (hact .syncAll) ?_
  refine .call (a := .ok ()) (hact hlink) ?_
  exact hrest

/-- Then the temporary name goes, and the key is installed. -/
theorem writePrivateKey_works (hact : ∀ {s c a s'}, FsCall.Works resolve i s c a s' → act (f s) c a (f s'))
    {display : Bytes → String} {target contents : Bytes} (hdir : parent target = some dir)
    (hname : (fileName target).filter (fun name => (fromUtf8 name).isSome) = some name) (hends : name <:+ target)
    (hfree : s.inodes n = none) (ht : s.names (resolve dir, temporaryName name pid (s.sequence pid)) = none) (htarget : s.names (resolve dir, name) = none) :
    Prog.Returns act (writePrivateKey display pid target contents) (f s) (.ok ())
      (f ((linked resolve i contents dir (temporaryName name pid (s.sequence pid)) name n pid s).setName
        (resolve dir, temporaryName name pid (s.sequence pid)) none)) := by
  refine writePrivateKey_links hact hdir hname hends rfl hfree ht htarget ?_
  have hlook : (linked resolve i contents dir (temporaryName name pid (s.sequence pid)) name n pid s).look
      (resolve dir, temporaryName name pid (s.sequence pid)) = some (keyInode i contents) := by
    have hne : (resolve dir, temporaryName name pid (s.sequence pid)) ≠ (resolve dir, name) := by
      simpa using temporaryName_ne name pid (s.sequence pid)
    simp [Disk.look, linked, Function.update_of_ne hne]
  refine .call (a := .ok ()) (hact (.removeFile hlook (by simp [keyInode]))) ?_
  refine .call (a := .ok ()) (hact .openDir) ?_
  exact .call (a := .ok ()) (hact .syncDir) .ret

end

/-! ## All calls together -/

/-- A call of `write_private_key`. -/
structure Install where
  display : Bytes → String
  pid : Nat
  target : Bytes
  contents : Bytes

def Install.program (call : Install) : Fs (Except String Unit) :=
  writePrivateKey call.display call.pid call.target call.contents

section
variable {ι Dir : Type} [DecidableEq ι] [DecidableEq Dir]

abbrev InstallSystem (Dir ι : Type) : Type := System ι (Disk Dir ι) FsCall FsCall.Answer (Except String Unit)

/-- The calls side by side, with processes that create files. -/
abbrev Installs (resolve : Bytes → Dir) : InstallSystem Dir ι → InstallSystem Dir ι → Prop :=
  System.Runs (fun i s c => FsCall.Acts resolve i s c) Disk.Grown

/-- None of the calls has made anything yet. -/
structure Unclaimed (s : Disk Dir ι) : Prop where
  names : ∀ p e, s.names p = some e → e.owner = none
  inodes : ∀ n x, s.inodes n = some x → x.owner = none

/-- The calls have done no harm since `s₀`. -/
structure InstallSafe (resolve : Bytes → Dir) (calls : ι → Install) (s₀ : Disk Dir ι) (sys : InstallSystem Dir ι) :
    Prop where
  /-- what there was is there, unchanged -/
  names : ∀ p e, s₀.names p = some e → sys.world.names p = some e
  inodes : ∀ n x, s₀.inodes n = some x → sys.world.inodes n = some x
  /-- a target that a call created is whole -/
  whole : ∀ i t n, place resolve (calls i).target = some t → sys.world.names t = some ⟨n, some i⟩ →
    sys.world.inodes n = some (keyInode i (calls i).contents)
  /-- the call that returned `Ok` created its target -/
  created : ∀ i, sys.progs i = .ret (.ok ()) → ∃ t n, place resolve (calls i).target = some t ∧
    sys.world.names t = some ⟨n, some i⟩
  once : ∀ i j, sys.progs i = .ret (.ok ()) → sys.progs j = .ret (.ok ()) →
    place resolve (calls i).target = place resolve (calls j).target → i = j
  /-- the next call of each program touches only what that program made, and never a target -/
  spared : ∀ i c next a s', sys.progs i = .call c next → c.Acts resolve i sys.world a s' →
    (∀ p e, sys.world.names p = some e → e.owner ≠ some i → s'.names p = some e) ∧
    (∀ n x, sys.world.inodes n = some x → x.owner ≠ some i → s'.inodes n = some x) ∧
    ∀ t e, place resolve (calls i).target = some t → sys.world.names t = some e → s'.names t = some e

variable {resolve : Bytes → Dir} {calls : ι → Install} {s₀ : Disk Dir ι}

omit [DecidableEq ι] [DecidableEq Dir] in
theorem installs_compatible : System.Compatible Disk.Grown (fun i => Disk.Kept i)
    fun i => Guarantee i (place resolve (calls i).target) (calls i).contents where
  interference i := Disk.kept_interference i
  env _ _ _ h := h.kept
  others hij _ _ h := h.spared.kept hij

/-- **Key installation is safe**, whatever stands in the directory, in any order of steps, with any
calls failing. -/
theorem installed_whole (resolve : Bytes → Dir) (calls : ι → Install) (h₀ : Unclaimed s₀) {sys : InstallSystem Dir ι}
    (hruns : Installs resolve ⟨s₀, fun i => (calls i).program⟩ sys) : InstallSafe resolve calls s₀ sys := by
  have hc : System.Compatible Disk.Grown (fun i => Disk.Kept i)
      fun i => Guarantee i (place resolve (calls i).target) (calls i).contents := installs_compatible
  have howing₀ : System.Owing (fun i s c => FsCall.Acts resolve i s c) (fun i => Disk.Kept i)
      (fun i => Guarantee i (place resolve (calls i).target) (calls i).contents)
      (fun i r s => r = .ok () →
        EndsInName (calls i).target ∧ ∃ t m, place resolve (calls i).target = some t ∧ s.names t = some ⟨m, some i⟩)
      ⟨s₀, fun i => (calls i).program⟩ := by
    intro i
    refine writePrivateKey_wp fun p m => ⟨fun hp => ?_, fun hp => absurd hp.1 (Set.notMem_empty p)⟩
    cases h₀.names p _ hp
  have howing := howing₀.runs hc hruns
  have hnames : ∀ p e, s₀.names p = some e → sys.world.names p = some e := by
    intro p e he
    have hnone := h₀.names p e he
    refine howing₀.keeps hc (P := fun s => s.names p = some e) (fun henv hp => ?_) (fun i s s' hguar hp => ?_) hruns he
    · exact (henv.names p).elim (fun h => h.trans hp) fun h => by rw [h.1] at hp; cases hp
    · exact (hguar.spared.names p).elim (fun h => h.trans hp) fun h => by rw [h.1 e hp] at hnone; cases hnone
  have hinodes : ∀ n x, s₀.inodes n = some x → sys.world.inodes n = some x := by
    intro n x hx
    have hnone := h₀.inodes n x hx
    refine howing₀.keeps hc (P := fun s => s.inodes n = some x) (fun henv hn => ?_) (fun i s s' hguar hn => ?_) hruns hx
    · exact (henv.inodes n).elim (fun h => h.trans hn) fun h => by rw [h.1] at hn; cases hn
    · exact (hguar.spared.inodes n).elim (fun h => h.trans hn) fun h => by rw [h.1 x hn] at hnone; cases hnone
  have hwhole : ∀ i t, place resolve (calls i).target = some t → Complete i t (calls i).contents sys.world := by
    intro i t ht
    refine howing₀.keeps hc (P := Complete i t (calls i).contents) (fun henv h => h.kept henv.kept)
      (fun j s s' hguar h => ?_) hruns fun n hn => ?_
    · by_cases hji : j = i
      · subst hji
        exact hguar.complete t ht h
      · exact h.kept (hguar.spared.kept hji)
    · cases h₀.names t _ hn
  have hcreated : ∀ i, sys.progs i = .ret (.ok ()) → ∃ t n, place resolve (calls i).target = some t ∧
      sys.world.names t = some ⟨n, some i⟩ := fun i hret => (howing.returned hc hret rfl).2
  refine ⟨hnames, hinodes, fun i t n ht hn => hwhole i t ht n hn, hcreated, fun i j hi hj hsame => ?_,
    fun i c next a s' hprog hact => ?_⟩
  · obtain ⟨t, n, ht, hn⟩ := hcreated i hi
    obtain ⟨u, m, hu, hm⟩ := hcreated j hj
    rw [ht, hu, Option.some.injEq] at hsame
    rw [hsame, hm, Option.some.injEq, DirEntry.mk.injEq, Option.some.injEq] at hn
    exact hn.2.symm
  · have hi := howing i
    rw [hprog] at hi
    obtain ⟨hspared, htarget, -⟩ := (hi _ ((hc.interference i).refl _) a s' hact).1
    refine ⟨fun p e he hne => ?_, fun n x hx hne => ?_, fun t e ht he => htarget t ht e he⟩
    · exact (hspared.names p).elim (fun h => h.trans he) fun h => absurd (h.1 e he) hne
    · exact (hspared.inodes n).elim (fun h => h.trans hx) fun h => absurd (h.1 x hx) hne

end

/-- Two processes install a key at `/k`, and the first is done. -/
theorem installed_whole_example :
    let calls : Bool → Install := fun b => ⟨fun _ => "/k", if b then 1 else 2, ascii "/k", ascii "PEM"⟩
    ∃ sys, Installs id ⟨Disk.empty, fun i => (calls i).program⟩ sys ∧ sys.progs true = .ret (.ok ()) ∧
      InstallSafe id calls Disk.empty sys := by
  intro calls
  let temporary := temporaryName (ascii "k") 1 0
  let s' := (linked id true (ascii "PEM") (ascii "/") temporary (ascii "k") 0 1 Disk.empty).setName (ascii "/", temporary) none
  have hrun : Prog.Returns (fun s c => FsCall.Acts id true s c) (calls true).program Disk.empty (.ok ()) s' :=
    writePrivateKey_works (f := id) Or.inl (by decide) (by decide) (by decide) rfl rfl rfl
  have hruns : Installs id ⟨Disk.empty, fun i => (calls i).program⟩
      ⟨s', Function.update (fun i => (calls i).program) true (.ret (.ok ()))⟩ := System.runs_of_returns hrun rfl
  exact ⟨_, hruns, by simp, installed_whole id calls ⟨fun _ _ h => (by cases h), fun _ _ h => (by cases h)⟩ hruns⟩

end DkimLite
