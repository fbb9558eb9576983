/-!
# Settings of the block cache

Blocks of memory come in size classes.  A class says how long its blocks are and how many of them
a thread keeps for later use; `Settings.check` accepts classes with positive, strictly increasing
block sizes.
-/

namespace Tandem.Memory

/-- One size class. -/
structure SizeClass where
  /-- the length of the blocks of this class -/
  blockSize : Nat
  /-- how many unused blocks a thread keeps -/
  maxBlocks : Nat
  deriving DecidableEq, Repr, Inhabited

/-- The size classes of a process, smallest first. -/
structure Settings where
  classes : List SizeClass
  deriving DecidableEq, Repr, Inhabited

/-- Why settings are refused. -/
inductive SettingsError where
  | zeroBlockSize
  | notIncreasing (size previous : Nat)
  deriving DecidableEq, Repr

def SettingsError.message : SettingsError → String
  | zeroBlockSize => "memory class block size must be positive"
  | notIncreasing size previous =>
    s!"memory class block sizes must be strictly increasing, {size} follows {previous}"

namespace Settings

/-- The usual block sizes, each with the same number of kept blocks. -/
def withMaxBlocks (n : Nat) : Settings := ⟨[16, 64, 256, 1024, 4096].map (⟨·, n⟩)⟩

/-- For a process with few threads and few messages at a time. -/
def client : Settings := withMaxBlocks 2

/-- For a process with many connections; also what holds where nothing was set. -/
def server : Settings := withMaxBlocks 4

/-- Keeps no blocks at all. -/
def uncached : Settings := withMaxBlocks 0

/-- The check of the classes that follow a class of `previous` bytes. -/
def checkFrom (previous : Nat) : List SizeClass → Except SettingsError Unit
  | [] => .ok ()
  | c :: cs =>
    if c.blockSize = 0 then .error .zeroBlockSize
    else if c.blockSize ≤ previous then .error (.notIncreasing c.blockSize previous)
    else checkFrom c.blockSize cs

/-- Block sizes must be positive and strictly increasing. -/
def check (s : Settings) : Except SettingsError Unit := checkFrom 0 s.classes

theorem checkFrom_eq_ok_iff (previous : Nat) (cs : List SizeClass) :
    checkFrom previous cs = .ok () ↔
      (previous :: cs.map SizeClass.blockSize).Pairwise (· < ·) := by
  induction cs generalizing previous with
  | nil => simp [checkFrom]
  | cons c cs ih =>
    have h := ih c.blockSize
    simp only [checkFrom, List.map_cons]
    rw [List.pairwise_cons] at h ⊢
    split
    · next h0 => simp [h0]
    · split
      · next hle => simp; omega
      · next hne hlt =>
        rw [h]
        constructor
        · intro hp
          refine ⟨?_, List.pairwise_cons.2 hp⟩
          intro x hx
          rcases List.mem_cons.1 hx with rfl | hx
          · omega
          · have := hp.1 x hx; omega
        · rintro ⟨-, hp⟩
          exact List.pairwise_cons.1 hp

/-- **Accepted settings** are those with positive, strictly increasing block sizes. -/
theorem check_eq_ok_iff (s : Settings) :
    s.check = .ok () ↔ (0 :: s.classes.map SizeClass.blockSize).Pairwise (· < ·) :=
  checkFrom_eq_ok_iff 0 s.classes

end Settings

end Tandem.Memory
