/-
The local copy of the public place index (`app/infra/place_index.py`).

`ensure_local_index` is called by any number of processes on one path, each with the hash
its settings name. The model has one step for each file operation:

* `call` and `acquire`: the call opens the lock file, then holds the exclusive lock;
* `check`: the stamp is compared with the file, and the call returns or downloads;
* `download`, `downloaded`: the download writes the partial file as it likes, then ends;
* `hash`: `file_sha256` of the partial file against the expected hash;
* `discard`: the partial file is deleted and the call raises;
* `unstamp`, `replace`: the stamp is deleted, then the partial file is renamed to the path;
* `openStamp`, `writeStamp`, `closeStamp`: the new stamp is written, a few characters at a time;
* `release`: the call returns and the lock with it.

A process may crash, or leave by an exception, between any two of them (`stop`): the system
takes its lock back and the files stay as they are.

The stamp is only ever a beginning of a text that vouches for the file at the path
(`reached_vouched`), so a stamp that matches the file tells its hash, whatever crashed before.
-/

import Mathlib.Algebra.Group.Nat.Defs
import Mathlib.Data.List.Basic
import Mathlib.Logic.Function.Basic
import Yeodam.Lib.Run

namespace Yeodam.Infra

open Yeodam.Lib

/-- `hashlib.sha256`: bytes may be fed in parts, and the digest is hexadecimal. -/
structure Digest where
  State : Type
  init : State
  update : State → List UInt8 → State
  hexdigest : State → String
  update_nil : ∀ state, update state [] = state
  update_append : ∀ state xs ys, update (update state xs) ys = update state (xs ++ ys)
  hexdigest_no_space : ∀ state, ' ' ∉ (hexdigest state).toList

/-- The SHA-256 of a text of bytes. -/
def Digest.sha256 (D : Digest) (bytes : List UInt8) : String :=
  D.hexdigest (D.update D.init bytes)

structure File where
  content : List UInt8
  /-- `st_mtime_ns` -/
  mtime : Int
deriving DecidableEq

/-- `st_size` -/
def File.size (f : File) : Nat := f.content.length

/-! ### Hashes and stamps -/

/-- `1 << 20` -/
def blockSize : Nat := 2 ^ 20

/-- The loop of `file_sha256`: blocks are read until one is empty. -/
def feed (D : Digest) (state : D.State) : List UInt8 → D.State
  | [] => state
  | byte :: bytes =>
      feed D (D.update state ((byte :: bytes).take blockSize)) ((byte :: bytes).drop blockSize)
termination_by bytes => bytes.length
decreasing_by
  simp only [blockSize, List.length_drop, List.length_cons]
  omega

def fileSha256 (D : Digest) (f : File) : String := D.hexdigest (feed D D.init f.content)

theorem feed_eq (D : Digest) (state : D.State) (bytes : List UInt8) :
    feed D state bytes = D.update state bytes := by
  induction state, bytes using feed.induct (D := D) with
  | case1 state => rw [feed, D.update_nil]
  | case2 state byte bytes ih => rw [feed, ih, D.update_append, List.take_append_drop]

/-- Reading in blocks gives the hash of the whole file. -/
theorem fileSha256_eq (D : Digest) (f : File) : fileSha256 D f = D.sha256 f.content := by
  rw [fileSha256, feed_eq, Digest.sha256]

/-- `_stamp`: the hash, the size and the modification time. -/
def stampText (f : File) (sha256 : String) : List Char :=
  sha256.toList ++ ' ' :: ((toString f.size).toList ++ ' ' :: (toString f.mtime).toList)

/-! ### Processes and files -/

/-- Where a call of a process stands; `sha256` is the hash it expects. -/
inductive Phase where
  /-- Not in a call. -/
  | idle
  /-- The lock file is open. -/
  | waiting (sha256 : String)
  /-- The lock is held. -/
  | locked (sha256 : String)
  /-- In `download(partial)`. -/
  | downloading (sha256 : String)
  | downloaded (sha256 : String)
  /-- The partial file has another hash. -/
  | rejected (sha256 : String)
  | verified (sha256 : String)
  | unstamped (sha256 : String)
  | replaced (sha256 : String)
  /-- The stamp is open, with this much still to write. -/
  | stamping (sha256 : String) (rest : List Char)
  /-- At `return path`, still inside the `with` block. -/
  | returning (sha256 : String)
deriving DecidableEq

/-- A process in this phase holds the lock. -/
def Phase.holds : Phase → Bool
  | .idle | .waiting _ => false
  | _ => true

structure Disk where
  path : Option File
  partialFile : Option File
  stamp : Option (List Char)
  lock : Option Nat
  phase : Nat → Phase

inductive Action where
  | call (pid : Nat) (sha256 : String)
  | acquire (pid : Nat)
  | check (pid : Nat)
  | download (pid : Nat) (written : Option File)
  | downloaded (pid : Nat)
  | hash (pid : Nat)
  | discard (pid : Nat)
  | unstamp (pid : Nat)
  | replace (pid : Nat)
  | openStamp (pid : Nat)
  | writeStamp (pid : Nat) (characters : Nat)
  | closeStamp (pid : Nat)
  | release (pid : Nat)
  | stop (pid : Nat)

namespace Disk

def enter (d : Disk) (pid : Nat) (phase : Phase) : Disk :=
  { d with phase := Function.update d.phase pid phase }

/-- A process leaves its call: by `return`, by an exception or by a crash. -/
def leave (d : Disk) (pid : Nat) : Disk :=
  { d.enter pid .idle with lock := if d.lock = some pid then none else d.lock }

/-- `path.is_file() and stamp.is_file() and stamp.read_text() == _stamp(path, sha256)`. -/
def stamped (d : Disk) (sha256 : String) : Bool :=
  match d.path, d.stamp with
  | some f, some text => decide (text = stampText f sha256)
  | _, _ => false

/-- The state after an action of a process, if the process can take it. -/
def next (D : Digest) (d : Disk) : Action → Option Disk
  | .call pid sha256 =>
      match d.phase pid with
      | .idle => some (d.enter pid (.waiting sha256))
      | _ => none
  | .acquire pid =>
      match d.phase pid, d.lock with
      | .waiting sha256, none => some { d.enter pid (.locked sha256) with lock := some pid }
      | _, _ => none
  | .check pid =>
      match d.phase pid with
      | .locked sha256 =>
          if d.stamped sha256 then some (d.enter pid (.returning sha256))
          else some (d.enter pid (.downloading sha256))
      | _ => none
  | .download pid written =>
      match d.phase pid with
      | .downloading _ => some { d with partialFile := written }
      | _ => none
  | .downloaded pid =>
      match d.phase pid with
      | .downloading sha256 => some (d.enter pid (.downloaded sha256))
      | _ => none
  | .hash pid =>
      match d.phase pid, d.partialFile with
      | .downloaded sha256, some f =>
          if fileSha256 D f = sha256 then some (d.enter pid (.verified sha256))
          else some (d.enter pid (.rejected sha256))
      -- No file to read: `FileNotFoundError`.
      | .downloaded _, none => some (d.leave pid)
      | _, _ => none
  | .discard pid =>
      match d.phase pid with
      | .rejected _ => some { d.leave pid with partialFile := none }
      | _ => none
  | .unstamp pid =>
      match d.phase pid with
      | .verified sha256 => some { d.enter pid (.unstamped sha256) with stamp := none }
      | _ => none
  | .replace pid =>
      match d.phase pid, d.partialFile with
      | .unstamped sha256, some f =>
          some { d.enter pid (.replaced sha256) with path := some f, partialFile := none }
      | .unstamped _, none => some (d.leave pid)
      | _, _ => none
  | .openStamp pid =>
      match d.phase pid, d.path with
      | .replaced sha256, some f =>
          some { d.enter pid (.stamping sha256 (stampText f sha256)) with stamp := some [] }
      | .replaced _, none => some (d.leave pid)
      | _, _ => none
  | .writeStamp pid characters =>
      match d.phase pid, d.stamp with
      | .stamping sha256 rest, some text =>
          some { d.enter pid (.stamping sha256 (rest.drop characters)) with
            stamp := some (text ++ rest.take characters) }
      | _, _ => none
  | .closeStamp pid =>
      match d.phase pid with
      | .stamping sha256 [] => some (d.enter pid (.returning sha256))
      | _ => none
  | .release pid =>
      match d.phase pid with
      | .returning _ => some (d.leave pid)
      | _ => none
  | .stop pid => some (d.leave pid)

end Disk

/-- One action of one process. -/
def DiskStep (D : Digest) (d : Disk) (a : Action) (d' : Disk) : Prop := d.next D a = some d'

/-- Before the first call: no process holds anything and nothing is vouched for. The path may
already have a file. -/
structure DiskInitial (d : Disk) : Prop where
  idle : ∀ pid, d.phase pid = .idle
  lock : d.lock = none
  stamp : d.stamp = none

abbrev DiskReached (D : Digest) : Disk → Prop := Reachable DiskInitial (DiskStep D)

/-! ### What the stamp says -/

/-- A beginning of a text whose first part has no space, and that has the same end. -/
theorem eq_of_prefixed {xs ys tail : List Char} (hspace : ' ' ∉ xs)
    (h : ys ++ ' ' :: tail <+: xs ++ ' ' :: tail) : ys = xs := by
  obtain ⟨rest, hrest⟩ := h
  induction xs generalizing ys with
  | nil =>
      have hlength := congrArg List.length hrest
      simp only [List.length_append, List.length_cons, List.length_nil] at hlength
      exact List.length_eq_zero_iff.mp (by omega)
  | cons x xs ih =>
      rw [List.mem_cons, not_or] at hspace
      cases ys with
      | nil =>
          injection hrest with hx
          exact absurd hx hspace.1
      | cons y ys =>
          injection hrest with hx hrest
          rw [hx, ih hspace.2 hrest]

/-- A stamp that a file completes to its own stamp text is for the same hash. -/
theorem eq_of_prefixed_stamp {D : Digest} {f : File} {sha256 sha256' : String}
    (h : D.sha256 f.content = sha256) (hstarts : stampText f sha256' <+: stampText f sha256) :
    sha256' = sha256 := by
  have hspace : ' ' ∉ sha256.toList := by
    rw [← h]
    exact D.hexdigest_no_space _
  exact String.toList_injective (eq_of_prefixed hspace hstarts)

/-- The file at the path has the hash. -/
def Disk.Has (D : Digest) (file : Option File) (sha256 : String) : Prop :=
  ∃ f, file = some f ∧ D.sha256 f.content = sha256

/-- What a process knows of the files while it holds the lock. -/
def Phase.Knows (D : Digest) (d : Disk) : Phase → Prop
  | .idle | .waiting _ | .locked _ | .downloading _ | .downloaded _ | .rejected _ => True
  | .verified sha256 => Disk.Has D d.partialFile sha256
  | .unstamped sha256 => Disk.Has D d.partialFile sha256 ∧ d.stamp = none
  | .replaced sha256 => Disk.Has D d.path sha256 ∧ d.stamp = none
  | .stamping sha256 rest => ∃ f text, d.path = some f ∧ D.sha256 f.content = sha256 ∧
      d.stamp = some text ∧ text ++ rest = stampText f sha256
  | .returning sha256 => Disk.Has D d.path sha256

/-- The stamp, whole or torn, vouches for the file at the path. -/
structure Vouched (D : Digest) (d : Disk) : Prop where
  exclusive : ∀ pid, (d.phase pid).holds = true → d.lock = some pid
  knows : ∀ pid, (d.phase pid).Knows D d
  stamp : ∀ text, d.stamp = some text → ∃ f sha256, d.path = some f ∧
    D.sha256 f.content = sha256 ∧ text <+: stampText f sha256

section

variable {D : Digest} {d d' : Disk} {pid other : Nat} {sha256 : String} {a : Action}

theorem Phase.knows_of_not_holds {p : Phase} (h : p.holds = false) : p.Knows D d := by
  cases p with
  | idle | waiting => trivial
  | _ => cases h

/-- While one process holds the lock no other does. -/
theorem Vouched.others (h : Vouched D d) (hpid : (d.phase pid).holds = true) (hne : other ≠ pid) :
    (d.phase other).holds = false := by
  rw [← Bool.not_eq_true]
  intro hother
  exact hne (Option.some.inj ((h.exclusive other hother).symm.trans (h.exclusive pid hpid)))

/-- A step of the process that holds the lock, to another phase with it or to none. -/
theorem Vouched.move (h : Vouched D d) (hpid : (d.phase pid).holds = true) {p : Phase}
    (hphase : d'.phase = Function.update d.phase pid p)
    (hlock : d'.lock = if p.holds then some pid else none) (hknows : p.Knows D d')
    (hstamp : ∀ text, d'.stamp = some text → ∃ f sha256, d'.path = some f ∧
      D.sha256 f.content = sha256 ∧ text <+: stampText f sha256) : Vouched D d' := by
  constructor
  · intro other hother
    by_cases hne : other = pid
    · subst hne
      rw [hphase, Function.update_self] at hother
      rw [hlock, if_pos hother]
    · rw [hphase, Function.update_of_ne hne, h.others hpid hne] at hother
      cases hother
  · intro other
    by_cases hne : other = pid
    · subst hne
      rwa [hphase, Function.update_self]
    · rw [hphase, Function.update_of_ne hne]
      exact Phase.knows_of_not_holds (h.others hpid hne)
  · exact hstamp

/-- The holder enters another phase and writes no file. -/
theorem Vouched.enter (h : Vouched D d) (hpid : (d.phase pid).holds = true) {p : Phase}
    (hholds : p.holds = true) (hknows : p.Knows D d) : Vouched D (d.enter pid p) := by
  refine h.move hpid rfl ?_ ?_ h.stamp
  · rw [if_pos hholds]
    exact h.exclusive pid hpid
  · cases p <;> exact hknows

/-- The holder leaves: the files stay, and what the stamp says. -/
theorem Vouched.leave (h : Vouched D d) : Vouched D (d.leave pid) := by
  constructor
  · intro other hother
    by_cases hne : other = pid
    · subst hne
      simp [Disk.leave, Disk.enter, Phase.holds] at hother
    · have hphase : (d.leave pid).phase other = d.phase other := by
        simp [Disk.leave, Disk.enter, Function.update_of_ne hne]
      rw [hphase] at hother
      have hlock := h.exclusive other hother
      simp [Disk.leave, Disk.enter, hlock, hne]
  · intro other
    by_cases hne : other = pid
    · subst hne
      have hphase : (d.leave other).phase other = .idle := by simp [Disk.leave, Disk.enter]
      rw [hphase]
      trivial
    · have hphase : (d.leave pid).phase other = d.phase other := by
        simp [Disk.leave, Disk.enter, Function.update_of_ne hne]
      rw [hphase]
      have hknows := h.knows other
      cases hp : d.phase other <;> rw [hp] at hknows <;> exact hknows
  · exact h.stamp

theorem Disk.stamped_iff : d.stamped sha256 = true ↔
    ∃ f, d.path = some f ∧ d.stamp = some (stampText f sha256) := by
  unfold Disk.stamped
  cases hpath : d.path <;> cases hstamp : d.stamp <;> simp

/-- **A stamp that matches tells the hash.** -/
theorem Vouched.sound (h : Vouched D d) (hstamped : d.stamped sha256 = true) :
    Disk.Has D d.path sha256 := by
  obtain ⟨f, hpath, hstamp⟩ := Disk.stamped_iff.mp hstamped
  obtain ⟨f', sha256', hpath', hsha, hstarts⟩ := h.stamp _ hstamp
  obtain rfl : f = f' := Option.some.inj (hpath.symm.trans hpath')
  exact ⟨f, hpath, hsha.trans (eq_of_prefixed_stamp hsha hstarts).symm⟩

/-- A process that is not in its call opens the lock file. -/
theorem Vouched.call (h : Vouched D d) (hidle : d.phase pid = .idle) :
    Vouched D (d.enter pid (.waiting sha256)) := by
  have hphase : ∀ other, other ≠ pid → (d.enter pid (.waiting sha256)).phase other =
      d.phase other := fun other hne => Function.update_of_ne hne _ _
  constructor
  · intro other hother
    by_cases hne : other = pid
    · subst hne
      simp [Disk.enter, Phase.holds] at hother
    · rw [hphase other hne] at hother
      exact h.exclusive other hother
  · intro other
    by_cases hne : other = pid
    · subst hne
      simp [Disk.enter, Phase.Knows]
    · rw [hphase other hne]
      have hknows := h.knows other
      cases hp : d.phase other <;> rw [hp] at hknows <;> exact hknows
  · exact h.stamp

/-- A free lock is held by no process, so one that waits may take it. -/
theorem Vouched.acquire (h : Vouched D d) (hfree : d.lock = none) :
    Vouched D { d.enter pid (.locked sha256) with lock := some pid } := by
  have hnone : ∀ other, (d.phase other).holds = false := by
    intro other
    rw [← Bool.not_eq_true]
    intro hother
    rw [h.exclusive other hother] at hfree
    cases hfree
  constructor
  · intro other hother
    by_cases hne : other = pid
    · rw [hne]
    · have hphase : (d.enter pid (.locked sha256)).phase other = d.phase other :=
        Function.update_of_ne hne _ _
      rw [hphase, hnone] at hother
      cases hother
  · intro other
    by_cases hne : other = pid
    · subst hne
      simp [Disk.enter, Phase.Knows]
    · have hphase : (d.enter pid (.locked sha256)).phase other = d.phase other :=
        Function.update_of_ne hne _ _
      rw [hphase]
      exact Phase.knows_of_not_holds (hnone other)
  · exact h.stamp

/-- **Step lemma.** Every action of a process, and every crash, keeps the stamp truthful. -/
theorem Vouched.step (h : Vouched D d) (hstep : DiskStep D d a d') : Vouched D d' := by
  unfold DiskStep at hstep
  cases a with
  | call pid sha256 =>
      simp only [Disk.next] at hstep
      split at hstep
      · rename_i hphase
        cases hstep
        exact h.call hphase
      · cases hstep
  | acquire pid =>
      simp only [Disk.next] at hstep
      split at hstep
      · rename_i hfree
        cases hstep
        exact h.acquire hfree
      · cases hstep
  | check pid =>
      simp only [Disk.next] at hstep
      split at hstep
      · rename_i sha256 hphase
        have hholds : (d.phase pid).holds = true := by rw [hphase]; rfl
        split at hstep
        · rename_i hstamped
          cases hstep
          exact h.enter hholds rfl (h.sound hstamped)
        · cases hstep
          exact h.enter hholds rfl trivial
      · cases hstep
  | download pid written =>
      simp only [Disk.next] at hstep
      split at hstep
      · rename_i sha256 hphase
        have hholds : (d.phase pid).holds = true := by rw [hphase]; rfl
        cases hstep
        refine h.move (p := .downloading sha256) hholds ?_ ?_ trivial h.stamp
        · exact (Function.update_eq_self_iff.mpr hphase.symm).symm
        · exact h.exclusive pid hholds
      · cases hstep
  | downloaded pid =>
      simp only [Disk.next] at hstep
      split at hstep
      · rename_i sha256 hphase
        cases hstep
        exact h.enter (by rw [hphase]; rfl) rfl trivial
      · cases hstep
  | hash pid =>
      simp only [Disk.next] at hstep
      split at hstep
      · rename_i sha256 f hphase hpart
        have hholds : (d.phase pid).holds = true := by rw [hphase]; rfl
        split at hstep
        · rename_i hsha
          cases hstep
          exact h.enter hholds rfl ⟨f, hpart, (fileSha256_eq D f).symm.trans hsha⟩
        · cases hstep
          exact h.enter hholds rfl trivial
      · cases hstep
        exact h.leave
      · cases hstep
  | discard pid =>
      simp only [Disk.next] at hstep
      split at hstep
      · rename_i sha256 hphase
        have hholds : (d.phase pid).holds = true := by rw [hphase]; rfl
        cases hstep
        refine h.move hholds rfl ?_ trivial h.stamp
        simp [Disk.leave, Disk.enter, Phase.holds, h.exclusive pid hholds]
      · cases hstep
  | unstamp pid =>
      simp only [Disk.next] at hstep
      split at hstep
      · rename_i sha256 hphase
        have hholds : (d.phase pid).holds = true := by rw [hphase]; rfl
        have hknows := h.knows pid
        rw [hphase] at hknows
        cases hstep
        refine h.move hholds rfl ?_ ⟨hknows, rfl⟩ fun text htext => by cases htext
        exact h.exclusive pid hholds
      · cases hstep
  | replace pid =>
      simp only [Disk.next] at hstep
      split at hstep
      · rename_i sha256 f hphase hpart
        have hholds : (d.phase pid).holds = true := by rw [hphase]; rfl
        have hknows := h.knows pid
        rw [hphase] at hknows
        obtain ⟨⟨f', hpart', hsha⟩, hstamp⟩ := hknows
        obtain rfl : f = f' := Option.some.inj (hpart.symm.trans hpart')
        cases hstep
        refine h.move hholds rfl ?_ ⟨⟨f, rfl, hsha⟩, hstamp⟩ ?_
        · exact h.exclusive pid hholds
        · intro text htext
          rw [show d.stamp = some text from htext] at hstamp
          cases hstamp
      · cases hstep
        exact h.leave
      · cases hstep
  | openStamp pid =>
      simp only [Disk.next] at hstep
      split at hstep
      · rename_i sha256 f hphase hpath
        have hholds : (d.phase pid).holds = true := by rw [hphase]; rfl
        have hknows := h.knows pid
        rw [hphase] at hknows
        obtain ⟨⟨f', hpath', hsha⟩, -⟩ := hknows
        obtain rfl : f = f' := Option.some.inj (hpath.symm.trans hpath')
        cases hstep
        refine h.move hholds rfl ?_ ⟨f, [], hpath, hsha, rfl, rfl⟩ ?_
        · exact h.exclusive pid hholds
        · rintro text ⟨⟩
          exact ⟨f, sha256, hpath, hsha, List.nil_prefix⟩
      · cases hstep
        exact h.leave
      · cases hstep
  | writeStamp pid characters =>
      simp only [Disk.next] at hstep
      split at hstep
      · rename_i sha256 rest text hphase hstamp
        have hholds : (d.phase pid).holds = true := by rw [hphase]; rfl
        have hknows := h.knows pid
        rw [hphase] at hknows
        obtain ⟨f, text', hpath, hsha, hstamp', htext⟩ := hknows
        obtain rfl : text = text' := Option.some.inj (hstamp.symm.trans hstamp')
        cases hstep
        have hwhole : text ++ rest.take characters ++ rest.drop characters =
            stampText f sha256 := by
          rw [List.append_assoc, List.take_append_drop, htext]
        refine h.move hholds rfl ?_ ⟨f, _, hpath, hsha, rfl, hwhole⟩ ?_
        · exact h.exclusive pid hholds
        · rintro _ ⟨⟩
          exact ⟨f, sha256, hpath, hsha, _, hwhole⟩
      · cases hstep
  | closeStamp pid =>
      simp only [Disk.next] at hstep
      split at hstep
      · rename_i sha256 hphase
        have hknows := h.knows pid
        rw [hphase] at hknows
        obtain ⟨f, -, hpath, hsha, -, -⟩ := hknows
        cases hstep
        exact h.enter (by rw [hphase]; rfl) rfl ⟨f, hpath, hsha⟩
      · cases hstep
  | release pid =>
      simp only [Disk.next] at hstep
      split at hstep
      · cases hstep
        exact h.leave
      · cases hstep
  | stop pid =>
      cases hstep
      exact h.leave

theorem vouched_initial (h : DiskInitial d) : Vouched D d where
  exclusive pid hpid := by
    rw [h.idle pid] at hpid
    cases hpid
  knows pid := by
    rw [h.idle pid]
    trivial
  stamp text htext := by
    rw [h.stamp] at htext
    cases htext

/-- **Run lemma.** -/
theorem reached_vouched (h : DiskReached D d) : Vouched D d :=
  h.invariant (fun _ => vouched_initial) fun _ _ _ h hst => h.step hst

/-- What holds of the files and the calls in a state. -/
structure NeverWrong (D : Digest) (d : Disk) : Prop where
  /-- A stamp that matches the file at the path tells its hash. -/
  sound : ∀ f sha256, d.path = some f → d.stamp = some (stampText f sha256) →
    D.sha256 f.content = sha256
  /-- A call that is about to return holds the lock, and the file has the hash it expects. -/
  returned : ∀ pid sha256, d.phase pid = .returning sha256 →
    d.lock = some pid ∧ ∃ f, d.path = some f ∧ D.sha256 f.content = sha256
  /-- A call returns from there only. -/
  returns : ∀ pid d', DiskStep D d (.release pid) d' → ∃ sha256, d.phase pid = .returning sha256
  /-- A call that has the lock proves the file or downloads it. -/
  checked : ∀ pid sha256 d', d.phase pid = .locked sha256 → DiskStep D d (.check pid) d' →
    (d'.phase pid = .returning sha256 ∧ ∃ f, d.path = some f ∧ D.sha256 f.content = sha256) ∨
      d'.phase pid = .downloading sha256

/-- **The local index is never vouched for wrongly**, whatever the processes expect, whatever
the downloads contain and wherever processes crash. -/
theorem reached_neverWrong (h : DiskReached D d) : NeverWrong D d := by
  have hvouched := reached_vouched h
  constructor
  case sound =>
    intro f sha256 hpath hstamp
    obtain ⟨f', hpath', hsha⟩ := hvouched.sound (Disk.stamped_iff.mpr ⟨f, hpath, hstamp⟩)
    rw [Option.some.inj (hpath.symm.trans hpath'), hsha]
  case returned =>
    intro pid sha256 hphase
    have hknows := hvouched.knows pid
    rw [hphase] at hknows
    exact ⟨hvouched.exclusive pid (by rw [hphase]; rfl), hknows⟩
  case returns =>
    intro pid d' hstep
    simp only [DiskStep, Disk.next] at hstep
    split at hstep
    · rename_i sha256 hphase
      exact ⟨sha256, hphase⟩
    · cases hstep
  case checked =>
    intro pid sha256 d' hphase hstep
    simp only [DiskStep, Disk.next, hphase] at hstep
    split at hstep
    · rename_i hstamped
      cases hstep
      exact .inl ⟨by simp [Disk.enter], hvouched.sound hstamped⟩
    · cases hstep
      exact .inr (by simp [Disk.enter])

/-- The digests of no bytes and of `abc`. -/
def sampleHex : List UInt8 → String
  | [] => "e3b0c44298fc1c149afbf4c8996fb92427ae41e4649b934ca495991b7852b855"
  | _ => "ba7816bf8f01cfea414140de5dae2223b00361a396177a9cb410ff61f20015ad"

def sampleDigest : Digest where
  State := List UInt8
  init := []
  update state bytes := state ++ bytes
  hexdigest := sampleHex
  update_nil := List.append_nil
  update_append state xs ys := List.append_assoc state xs ys
  hexdigest_no_space state := by
    unfold sampleHex
    split <;> decide +kernel

def emptyDisk : Disk := ⟨none, none, none, none, fun _ => .idle⟩

def sampleSha : String := sampleHex [97, 98, 99]

/-- A process crashes while it writes the stamp; the next one waits, then downloads again. -/
def crashSchedule : List Action :=
  [.call 0 sampleSha, .call 1 sampleSha, .acquire 0, .check 0,
    .download 0 (some ⟨[97, 98, 99], 1714557600000000000⟩), .downloaded 0, .hash 0, .unstamp 0,
    .replace 0, .openStamp 0, .writeStamp 0 70, .stop 0, .acquire 1, .check 1,
    .download 1 (some ⟨[97, 98, 99], 1714557601000000000⟩), .downloaded 1, .hash 1, .unstamp 1,
    .replace 1, .openStamp 1, .writeStamp 1 200, .closeStamp 1]

def crashedDisk : Disk := followed (Disk.next sampleDigest) emptyDisk crashSchedule

theorem neverWrong_crashedDisk :
    NeverWrong sampleDigest crashedDisk ∧ crashedDisk.phase 1 = .returning sampleSha := by
  have hinitial : DiskInitial emptyDisk := ⟨fun _ => rfl, rfl, rfl⟩
  have hrun : Run (DiskStep sampleDigest) emptyDisk crashSchedule crashedDisk :=
    run_followed emptyDisk crashSchedule (by decide +kernel)
  exact ⟨reached_neverWrong ⟨emptyDisk, crashSchedule, hinitial, hrun⟩, by decide +kernel⟩

end

end Yeodam.Infra
