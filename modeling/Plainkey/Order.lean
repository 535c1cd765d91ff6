import Plainkey.Safety

/-!
# Plainkey.Order

The ordering guarantee of spec §5, over runs: a `getPlatformKey` or `RecoverKeys` call that begins
after a `SetPlatformKeys` or `AddPlatformKeys` call has returned sees that call's assignment.

`Later s s'` holds whenever a run goes from `s` to `s'` (`exec_later`): the history only grows, a
call that has begun keeps its `start`, and a call that has not begun begins, if it does, after
every assignment made by then. With the invariant of `Plainkey.Safety`:

* `get_after_write`: in a reachable state where goroutine `j`'s write call has returned and
  goroutine `i`'s `getPlatformKey` call has not begun, every run from there on which the
  `getPlatformKey` call returns has it answer what the sequential selector answers on the store
  after a prefix of the assignments that holds goroutine `j`'s.
* `recover_after_write`: the same for a `RecoverKeys` call and the sequential `recoverKeys`.

Both are about the value model; `Plainkey.Refine` carries them to the slices under `NoAlias`.
-/

namespace Plainkey

def Phase.started : Phase → Option Nat
  | .rlock _ _ start | .copy _ _ start | .runlock _ _ start _ | .loop _ _ start _
  | .returned _ _ start _ _ | .recovered _ _ start _ _ => some start
  | _ => none

section Steps

variable {env : Env} {s s' : Sys} {k : Nat}

theorem Step.self (h : Step env s k s') :
    ∃ p q, s.threads[k]? = some p ∧ s'.threads = s.threads.set k q ∧
      (p.started = none → q.started = none ∨ q.started = some s.hist.length) ∧
      (p.started.isSome → q.started = p.started) := by
  cases h <;> refine ⟨_, _, ‹_›, rfl, fun h => ?_, fun h => ?_⟩ <;>
    first | exact .inl rfl | exact .inr rfl | rfl | cases h

theorem Step.hist_prefix (h : Step env s k s') : s.hist <+: s'.hist := by
  cases h <;> first | exact List.prefix_refl _ | exact List.prefix_append _ _

end Steps

/-- `s'` comes after `s` on a run. -/
structure Later (s s' : Sys) : Prop where
  length : s'.threads.length = s.threads.length
  hist : s.hist <+: s'.hist
  keep : ∀ (i : Nat) p st, s.threads[i]? = some p → p.started = some st →
    ∃ q, s'.threads[i]? = some q ∧ q.started = some st
  fresh : ∀ (i : Nat) p q st, s.threads[i]? = some p → p.started = none →
    s'.threads[i]? = some q → q.started = some st → s.hist.length ≤ st

theorem Later.refl (s : Sys) : Later s s where
  length := rfl
  hist := List.prefix_refl _
  keep _ p _ hi hp := ⟨p, hi, hp⟩
  fresh _ _ _ _ hi hp hq hst := by
    rw [hi, Option.some.injEq] at hq
    subst hq
    rw [hp] at hst
    cases hst

theorem Later.trans {s₁ s₂ s₃ : Sys} (h₁ : Later s₁ s₂) (h₂ : Later s₂ s₃) : Later s₁ s₃ where
  length := h₂.length.trans h₁.length
  hist := h₁.hist.trans h₂.hist
  keep i p st hi hp := by
    obtain ⟨q, hq, hqs⟩ := h₁.keep i p st hi hp
    exact h₂.keep i q st hq hqs
  fresh i p q st hi hp hq hst := by
    have hlen : i < s₂.threads.length := h₂.length ▸ (List.getElem?_eq_some.1 hq).1
    obtain ⟨r, hr⟩ : ∃ r, s₂.threads[i]? = some r := ⟨_, List.getElem?_eq_getElem hlen⟩
    cases hrs : r.started with
    | none => exact h₁.hist.length_le.trans (h₂.fresh i r q st hr hrs hq hst)
    | some st' =>
      obtain ⟨q', hq', hq's⟩ := h₂.keep i r st' hr hrs
      rw [hq, Option.some.injEq] at hq'
      subst hq'
      rw [hst, Option.some.injEq] at hq's
      exact hq's ▸ h₁.fresh i p r st' hi hp hr hrs

theorem Step.later {env : Env} {s s' : Sys} {k : Nat} (h : Step env s k s') : Later s s' := by
  obtain ⟨p, q, hk, hs, hnone, hsome⟩ := h.self
  have hget : ∀ i, s'.threads[i]? = if k = i then some q else s.threads[i]? := by
    intro i
    rw [hs, getElem?_set_of_getElem? hk]
  refine ⟨by rw [hs, List.length_set], h.hist_prefix, fun i p' st hi hp => ?_,
    fun i p' q' st hi hp hq hst => ?_⟩
  · rw [hget]
    split
    · subst_vars
      rw [hk, Option.some.injEq] at hi
      subst hi
      exact ⟨q, rfl, (hsome (by simp [hp])).trans hp⟩
    · exact ⟨p', hi, hp⟩
  · rw [hget] at hq
    split at hq
    · subst_vars
      rw [hk, Option.some.injEq] at hi
      subst hi
      rw [Option.some.injEq] at hq
      subst hq
      rcases hnone hp with h0 | h0 <;> rw [h0] at hst <;> cases hst
      exact le_rfl
    · rw [hi, Option.some.injEq] at hq
      subst hq
      rw [hp] at hst
      cases hst

theorem exec_later {env : Env} :
    ∀ (sched : List Nat) (s s' : Sys), exec env s sched = some s' → Later s s'
  | [], s, s', h => by cases h; exact Later.refl s
  | i :: sched, s, s', h => by
    obtain ⟨s₁, h₁, h⟩ := Option.bind_eq_some.1 h
    exact (step_sound h₁).later.trans (exec_later sched s₁ s' h)

theorem exec_append (env : Env) :
    ∀ (sched₁ sched₂ : List Nat) (s : Sys),
      exec env s (sched₁ ++ sched₂) = (exec env s sched₁).bind (exec env · sched₂)
  | [], _, _ => rfl
  | i :: sched₁, sched₂, s => by
    simp only [List.cons_append, exec]
    cases step env s i <;> simp [exec_append env sched₁]

theorem Reachable.of_exec {env : Env} {calls : List Call} {s s' : Sys} {sched : List Nat}
    (h : Reachable env calls s) (he : exec env s sched = some s') : Reachable env calls s' :=
  let ⟨sched₀, h₀⟩ := h
  ⟨sched₀ ++ sched, by rw [exec_append, h₀]; exact he⟩

theorem Reachable.of_step {env : Env} {calls : List Call} {s s' : Sys} {i : Nat}
    (h : Reachable env calls s) (hs : Step env s i s') : Reachable env calls s' :=
  h.of_exec (show exec env s [i] = some s' by simp only [exec, hs.step_eq, Option.some_bind])

theorem Inv.mem_hist {env : Env} {s : Sys} {j : Nat} {op : Op}
    (hinv : Inv env s) (hj : s.threads[j]? = some (.wrote op)) : (j, op) ∈ s.hist := by
  have hop : op ∈ (s.hist.filter (·.1 = j)).map Prod.snd := by
    rw [hinv.data.written j _ hj]
    exact List.mem_singleton_self op
  obtain ⟨⟨j', op'⟩, hf, rfl⟩ := List.mem_map.1 hop
  obtain ⟨hm, hj'⟩ := List.mem_filter.1 hf
  obtain rfl : j' = j := of_decide_eq_true hj'
  exact hm

/-- A call that has not begun when goroutine `j`'s write call has returned begins after that
call's assignment: every prefix of the history from its `start` on holds the assignment. -/
theorem mem_take_of_started {env : Env} {calls : List Call} {s s' : Sys} {i j : Nat} {op : Op}
    {p q : Phase} {sched : List Nat} {start n : Nat} (h : Reachable env calls s)
    (hj : s.threads[j]? = some (.wrote op)) (hi : s.threads[i]? = some p) (hp : p.started = none)
    (he : exec env s sched = some s') (hq : s'.threads[i]? = some q)
    (hst : q.started = some start) (hn : start ≤ n) : (j, op) ∈ s'.hist.take n := by
  have hl := exec_later sched s s' he
  have hmem := (reachable_inv h).mem_hist hj
  rw [List.prefix_iff_eq_take.1 hl.hist] at hmem
  exact (List.take_prefix_take_left s'.hist ((hl.fresh i p q start hi hp hq hst).trans hn)).subset
    hmem

theorem get_after_write {env : Env} {calls : List Call} {s s' : Sys} {i j : Nat} {op : Op}
    {rc : Option Recovery} {id : PlatformKeyId} {sched : List Nat} {start stop : Nat}
    {r : Go Bytes} (h : Reachable env calls s) (hj : s.threads[j]? = some (.wrote op))
    (hi : s.threads[i]? = some (.available rc id)) (he : exec env s sched = some s')
    (hr : s'.threads[i]? = some (.returned rc id start stop r)) :
    ∃ n, start ≤ n ∧ n ≤ stop ∧ (j, op) ∈ s'.hist.take n ∧
      r = getPlatformKey env (run ((s'.hist.map Prod.snd).take n) .init) id := by
  obtain ⟨-, -, n, h₁, h₂, hr'⟩ := (reachable_inv (h.of_exec he)).data.phase i _ hr
  exact ⟨n, h₁, h₂, mem_take_of_started h hj hi rfl he hr rfl h₁, hr'⟩

theorem recover_after_write {env : Env} {calls : List Call} {s s' : Sys} {i j : Nat} {op : Op}
    {data : PlatformKeyData} {encryptedPayload : Bytes} {sched : List Nat} {start stop : Nat}
    {r : Go Bytes} (h : Reachable env calls s) (hj : s.threads[j]? = some (.wrote op))
    (hi : s.threads[i]? = some (.recover data encryptedPayload)) (he : exec env s sched = some s')
    (hr : s'.threads[i]? = some (.recovered data encryptedPayload start stop r)) :
    ∃ n, start ≤ n ∧ n ≤ stop ∧ (j, op) ∈ s'.hist.take n ∧
      r = recoverKeys env (run ((s'.hist.map Prod.snd).take n) .init) data encryptedPayload := by
  obtain ⟨-, n, h₁, h₂, hr'⟩ := (reachable_inv (h.of_exec he)).data.phase i _ hr
  exact ⟨n, h₁, h₂, mem_take_of_started h hj hi rfl he hr rfl h₁, hr'⟩

end Plainkey
