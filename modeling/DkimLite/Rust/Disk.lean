import DkimLite.Rust.Path
import DkimLite.Rust.Prog

/-!
# Files and directories shared by processes

A `Disk` is a set of named entries, each for an inode; several names may stand for one. Every entry
and inode records who made it (`owner`, nobody being a process outside the model), which the calls
themselves do not look at.

`Works` is what a call does when the system carries it out, refusals included: `createNew` and
`hardLink` are atomic and refuse a name that exists, and no file is linked under a path that goes on after
its file name. `Fails` is any other failure: an error, and no effect but for a partial write.
-/

namespace Rust

/-! ## The disk -/

inductive Kind where
  | regular (contents : Bytes)
  | directory
  | symlink
deriving DecidableEq

variable {ι Dir : Type}

structure Inode (ι : Type) where
  kind : Kind
  mode : Nat
  owner : Option ι

structure DirEntry (ι : Type) where
  inode : Nat
  owner : Option ι

/-- `sequence` is the counter each process keeps in memory. -/
structure Disk (Dir ι : Type) where
  names : Dir × Bytes → Option (DirEntry ι)
  inodes : Nat → Option (Inode ι)
  sequence : Nat → Nat

/-- `io::Error`: whether it is `AlreadyExists`, and its text. -/
structure FsError where
  alreadyExists : Bool
  text : String

/-- The calls. A file that was opened is the number of its inode. -/
inductive FsCall where
  | exists (path : Bytes)
  | isDir (path : Bytes)
  /-- `fetch_add` on the counter of the process -/
  | nextSequence (pid : Nat)
  | createNew (dir name : Bytes) (mode : Nat)
  | setPermissions (dir name : Bytes) (mode : Nat)
  | writeAll (file : Nat) (contents : Bytes)
  | syncAll (file : Nat)
  /-- the new name is a path as it was written -/
  | hardLink (dir old target : Bytes)
  | removeFile (dir name : Bytes)
  | openDir (path : Bytes)
  | syncDir (path : Bytes)
deriving DecidableEq

abbrev FsCall.Answer : FsCall → Type
  | .exists _ | .isDir _ => Bool
  | .nextSequence _ => Nat
  | .createNew _ _ _ => Except FsError Nat
  | _ => Except FsError Unit

abbrev Fs (α : Type) := Prog FsCall FsCall.Answer α

def FsCall.run (c : FsCall) : Fs c.Answer := Prog.perform c

namespace Disk

def setName [DecidableEq Dir] (s : Disk Dir ι) (p : Dir × Bytes) (e : Option (DirEntry ι)) : Disk Dir ι :=
  { s with names := Function.update s.names p e }

def setInode (s : Disk Dir ι) (n : Nat) (x : Inode ι) : Disk Dir ι := { s with inodes := Function.update s.inodes n (some x) }

/-- What stands under a name. -/
def look (s : Disk Dir ι) (p : Dir × Bytes) : Option (Inode ι) := (s.names p).bind fun e => s.inodes e.inode

end Disk

variable [DecidableEq Dir] (resolve : Bytes → Dir)

/-- A call of the process `i`, carried out. `resolve` is the directory a path leads to. -/
inductive FsCall.Works (i : ι) (s : Disk Dir ι) : (c : FsCall) → c.Answer → Disk Dir ι → Prop
  /-- a link may lead anywhere, and a path that goes on after its name asks for a directory -/
  | exists {path : Bytes} {a : Bool} :
      (∀ dir name, Rust.parent path = some dir → fileName path = some name →
        (s.look (resolve dir, name) = none → a = false) ∧
        ∀ x, s.look (resolve dir, name) = some x → x.kind = .symlink ∨ ¬ name <:+ path ∨ a = true) →
      Works i s (.exists path) a s
  | isDir {path : Bytes} (a : Bool) : Works i s (.isDir path) a s
  | nextSequence {pid : Nat} : Works i s (.nextSequence pid) (s.sequence pid)
      { s with sequence := Function.update s.sequence pid (s.sequence pid + 1) }
  /-- the mode may lack bits of the one asked for -/
  | createNew {dir name : Bytes} {mode n masked : Nat} : s.names (resolve dir, name) = none → s.inodes n = none →
      masked &&& mode = masked → Works i s (.createNew dir name mode) (.ok n)
        ((s.setName (resolve dir, name) (some ⟨n, some i⟩)).setInode n ⟨.regular [], masked, some i⟩)
  | createExists {dir name : Bytes} {mode : Nat} (text : String) : (s.names (resolve dir, name)).isSome = true →
      Works i s (.createNew dir name mode) (.error ⟨true, text⟩) s
  | setPermissions {dir name : Bytes} {mode : Nat} {e : DirEntry ι} {x : Inode ι} : s.names (resolve dir, name) = some e →
      s.inodes e.inode = some x → x.kind ≠ .symlink →
      Works i s (.setPermissions dir name mode) (.ok ()) (s.setInode e.inode { x with mode })
  | writeAll {file : Nat} {more contents : Bytes} {x : Inode ι} : s.inodes file = some x → x.kind = .regular contents →
      Works i s (.writeAll file more) (.ok ()) (s.setInode file { x with kind := .regular (contents ++ more) })
  | syncAll {file : Nat} : Works i s (.syncAll file) (.ok ()) s
  | hardLink {dir old target into name : Bytes} {e : DirEntry ι} {x : Inode ι} : s.names (resolve dir, old) = some e →
      s.inodes e.inode = some x → x.kind ≠ .directory → Rust.parent target = some into → fileName target = some name →
      name <:+ target → s.names (resolve into, name) = none → Works i s (.hardLink dir old target) (.ok ())
      (s.setName (resolve into, name) (some ⟨e.inode, some i⟩))
  | linkExists {dir old target into name : Bytes} (text : String) : Rust.parent target = some into →
      fileName target = some name → (s.names (resolve into, name)).isSome = true →
      Works i s (.hardLink dir old target) (.error ⟨true, text⟩) s
  | linkRefused {dir old target name : Bytes} (e : FsError) : fileName target = some name → ¬ name <:+ target →
      Works i s (.hardLink dir old target) (.error e) s
  | removeFile {dir name : Bytes} {x : Inode ι} : s.look (resolve dir, name) = some x → x.kind ≠ .directory → Works i s
      (.removeFile dir name) (.ok ()) (s.setName (resolve dir, name) none)
  | openDir {path : Bytes} : Works i s (.openDir path) (.ok ()) s
  | syncDir {path : Bytes} : Works i s (.syncDir path) (.ok ()) s

/-- A call that the system does not carry out. -/
inductive FsCall.Fails (s : Disk Dir ι) : (c : FsCall) → c.Answer → Disk Dir ι → Prop
  | exists {path : Bytes} : Fails s (.exists path) false s
  | isDir {path : Bytes} : Fails s (.isDir path) false s
  | createNew {dir name : Bytes} {mode : Nat} (e : FsError) : Fails s (.createNew dir name mode) (.error e) s
  | setPermissions {dir name : Bytes} {mode : Nat} (e : FsError) : Fails s (.setPermissions dir name mode) (.error e) s
  /-- some of it may have been written -/
  | writeAll {file k : Nat} {more contents : Bytes} {x : Inode ι} (e : FsError) : s.inodes file = some x →
      x.kind = .regular contents →
      Fails s (.writeAll file more) (.error e) (s.setInode file { x with kind := .regular (contents ++ more.take k) })
  | syncAll {file : Nat} (e : FsError) : Fails s (.syncAll file) (.error e) s
  | hardLink {dir old target : Bytes} (e : FsError) : Fails s (.hardLink dir old target) (.error e) s
  | removeFile {dir name : Bytes} (e : FsError) : Fails s (.removeFile dir name) (.error e) s
  | openDir {path : Bytes} (e : FsError) : Fails s (.openDir path) (.error e) s
  | syncDir {path : Bytes} (e : FsError) : Fails s (.syncDir path) (.error e) s

/-- Any call may fail. -/
def FsCall.Acts (i : ι) (s : Disk Dir ι) (c : FsCall) (a : c.Answer) (s' : Disk Dir ι) : Prop :=
  FsCall.Works resolve i s c a s' ∨ FsCall.Fails s c a s'

end Rust
