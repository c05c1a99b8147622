import Avisor.Lib.Machine
import Mathlib.Data.Finset.Basic
import Mathlib.Data.Fintype.Defs
import Mathlib.Logic.Function.Basic

/-!
# Records that are read while they are written

A writer stores the words of a record one after another. A reader fetches them one by one, in any order and
at any time, and keeps the record until the writer invalidates what it has. What the reader then has is a
mixture: each word is one that was in memory at some time since the last invalidation. `Window` keeps the
contents of the memory since then.
-/

universe u v

open Function

/-- What the writer does next; `skip` is something that neither the memory nor the reader sees. -/
inductive Publication.Op (ι : Type u) (V : Type v)
  | store (i : ι) (v : V)
  | invalidate
  | skip

/-- The memory, the words that the fetch going on has, the record that the reader keeps, and what the writer
still has to do. -/
structure Publication (ι : Type u) (V : Type v) (n : ℕ) where
  mem : ι → V
  fetched : Fin n → Option V
  cache : Option (Fin n → V)
  rest : List (Publication.Op ι V)

namespace Publication

/-- The writer's next operation, or the reader fetches a word, keeps a record that it has, or gives one up. -/
inductive Action (n : ℕ)
  | write
  | fetch (k : Fin n)
  | keep
  | drop

variable {ι : Type u} {V : Type v} {n : ℕ} [DecidableEq ι]

def Op.perform (s : Publication ι V n) : Op ι V → Publication ι V n
  | store i v => { s with mem := update s.mem i v }
  | invalidate => { s with fetched := fun _ => none, cache := none }
  | skip => s

/-- The record, if each word of it is fetched. -/
def record (fetched : Fin n → Option V) : Option (Fin n → V) :=
  if h : ∀ k, (fetched k).isSome then some fun k => (fetched k).get (h k) else none

variable (addr : Fin n → ι)

/-- The words of the record are at `addr`. -/
def step (s : Publication ι V n) : Action n → Option (Publication ι V n)
  | .write =>
    match s.rest with
    | [] => none
    | op :: rest => some { op.perform s with rest := rest }
  | .fetch k => some { s with fetched := update s.fetched k (some (s.mem (addr k))) }
  | .keep => (record s.fetched).map fun r => { s with fetched := fun _ => none, cache := some r }
  | .drop => some { s with fetched := fun _ => none, cache := none }

/-- The writer is to do `ops` from the memory `mem` on, of which the reader may have the words. -/
def machine (mem : ι → V) (ops : List (Op ι V)) : Machine (Publication ι V n) (Action n) where
  Init s := s.mem = mem ∧ s.rest = ops ∧ (∀ k v, s.fetched k = some v → mem (addr k) = v) ∧
    ∀ r, s.cache = some r → ∀ k, mem (addr k) = r k
  step := step addr

/-! ### Windows -/

/-- The contents of the memory since the last invalidation, the latest first. -/
structure Window (ι : Type u) (V : Type v) where
  mem : ι → V
  past : List (ι → V)

namespace Window

def after (w : Window ι V) : Op ι V → Window ι V
  | .store i v => ⟨update w.mem i v, w.mem :: w.past⟩
  | .invalidate => ⟨w.mem, []⟩
  | .skip => w

/-- A word that was at an address since the last invalidation. -/
def Had (w : Window ι V) (i : ι) (v : V) : Prop := ∃ m ∈ w.mem :: w.past, m i = v

/-- A record with such words. -/
def Mixture (w : Window ι V) (r : Fin n → V) : Prop := ∀ k, w.Had (addr k) (r k)

variable {w : Window ι V} {i : ι} {v : V} {op : Op ι V}

theorem Had.after (h : w.Had i v) (hop : op ≠ .invalidate) : (w.after op).Had i v := by
  obtain ⟨m, hm, hv⟩ := h
  cases op with
  | store j v' => exact ⟨m, List.mem_cons_of_mem _ hm, hv⟩
  | invalidate => exact absurd rfl hop
  | skip => exact ⟨m, hm, hv⟩

/-- The window of a writer that has done `ops`. -/
def run (mem : ι → V) (ops : List (Op ι V)) : Window ι V := ops.foldl Window.after ⟨mem, []⟩

theorem run_concat (mem : ι → V) (ops : List (Op ι V)) (op : Op ι V) :
    run mem (ops ++ [op]) = (run mem ops).after op := by
  rw [run, List.foldl_append]
  rfl

end Window

/-- The reader has words of the window only. -/
structure Within (w : Window ι V) (s : Publication ι V n) : Prop where
  mem : s.mem = w.mem
  fetched : ∀ k v, s.fetched k = some v → w.Had (addr k) v
  cache : ∀ r, s.cache = some r → w.Mixture addr r

variable {addr} {s t : Publication ι V n} {w : Window ι V} {mem : ι → V} {ops : List (Op ι V)} {r : Fin n → V}

theorem Within.perform (h : Within addr w s) (op : Op ι V) : Within addr (w.after op) (op.perform s) := by
  cases op with
  | store i v =>
    refine ⟨?_, fun k v' hv => (h.fetched k v' hv).after nofun, fun r hr k => (h.cache r hr k).after nofun⟩
    exact congrArg (update · i v) h.mem
  | invalidate => exact ⟨h.mem, nofun, nofun⟩
  | skip => exact h

theorem record_eq_some {fetched : Fin n → Option V} (h : record fetched = some r) (k : Fin n) :
    fetched k = some (r k) := by
  unfold record at h
  split at h
  · cases h
    exact (Option.some_get _).symm
  · cases h

/-- One step, and the window behind it. -/
theorem Within.step (h : Within addr w s) {a : Action n} (hstep : step addr s a = some t) :
    ∃ done, s.rest = done ++ t.rest ∧ done.length ≤ 1 ∧ Within addr (done.foldl Window.after w) t := by
  cases a with
  | write =>
    unfold Publication.step at hstep
    cases hrest : s.rest with
    | nil =>
      simp only [hrest] at hstep
      cases hstep
    | cons op rest =>
      simp only [hrest] at hstep
      cases hstep
      have hop := h.perform op
      exact ⟨[op], rfl, Nat.le_refl 1, hop.mem, hop.fetched, hop.cache⟩
  | fetch k =>
    cases hstep
    refine ⟨[], rfl, Nat.zero_le 1, h.mem, fun j v hv => ?_, h.cache⟩
    dsimp only at hv
    by_cases hj : j = k
    · rw [hj] at hv ⊢
      rw [update_self] at hv
      rw [← Option.some.inj hv, h.mem]
      exact ⟨w.mem, List.mem_cons_self, rfl⟩
    · rw [update_of_ne hj] at hv
      exact h.fetched j v hv
  | keep =>
    obtain ⟨r, hr, rfl⟩ := Option.map_eq_some_iff.mp hstep
    refine ⟨[], rfl, Nat.zero_le 1, h.mem, nofun, fun r' hr' k => ?_⟩
    cases hr'
    exact h.fetched k _ (record_eq_some hr k)
  | drop =>
    cases hstep
    exact ⟨[], rfl, Nat.zero_le 1, h.mem, nofun, nofun⟩

/-- What the reader has is a mixture of what was in memory since the last invalidation. -/
theorem reachable_within (h : (machine addr mem ops).Reachable s) :
    ∃ done, ops = done ++ s.rest ∧ Within addr (Window.run mem done) s := by
  refine h.invariant (P := fun s => ∃ done, ops = done ++ s.rest ∧ Within addr (Window.run mem done) s) ?_ ?_
  · rintro s ⟨hmem, hrest, hfetched, hcache⟩
    exact ⟨[], hrest.symm, hmem, fun k v hv => ⟨mem, List.mem_cons_self, hfetched k v hv⟩,
      fun r hr k => ⟨mem, List.mem_cons_self, hcache r hr k⟩⟩
  · rintro s a t ⟨done, hops, hwithin⟩ hstep
    obtain ⟨more, hrest, -, ht⟩ := hwithin.step hstep
    refine ⟨done ++ more, by rw [hops, hrest, List.append_assoc], ?_⟩
    rwa [Window.run, List.foldl_append]

/-! ### Every mixture can be had -/

variable (addr mem ops) in
/-- The reader can fetch some of the words. -/
theorem exists_fetch (ks : List (Fin n)) (s : Publication ι V n) : ∃ as t, (machine addr mem ops).Run s as t ∧
    t.mem = s.mem ∧ t.rest = s.rest ∧ t.cache = s.cache ∧
    (∀ k ∈ ks, t.fetched k = some (s.mem (addr k))) ∧ ∀ k ∉ ks, t.fetched k = s.fetched k := by
  induction ks generalizing s with
  | nil => exact ⟨[], s, .nil s, rfl, rfl, rfl, fun k hk => absurd hk List.not_mem_nil, fun k _ => rfl⟩
  | cons k ks ih =>
    obtain ⟨as, t, hrun, hmem, hrest, hcache, hin, hout⟩ :=
      ih { s with fetched := update s.fetched k (some (s.mem (addr k))) }
    refine ⟨.fetch k :: as, t, .cons rfl hrun, hmem, hrest, hcache, fun j hj => ?_, fun j hj => ?_⟩
    · by_cases hjks : j ∈ ks
      · exact hin j hjks
      · obtain rfl : j = k := (List.mem_cons.mp hj).resolve_right hjks
        exact (hout j hjks).trans (update_self j _ _)
    · obtain ⟨hjk, hjks⟩ := not_or.mp (mt List.mem_cons.mpr hj)
      exact (hout j hjks).trans (update_of_ne hjk _ _)

/-- The words of the window that a fetch can have at once. -/
theorem exists_fetched {done rest : List (Op ι V)} (h : ops = done ++ rest) (f : Fin n → Option V)
    (hf : ∀ k v, f k = some v → (Window.run mem done).Had (addr k) v) : ∃ s,
    (machine addr mem ops).Reachable s ∧ s.rest = rest ∧ s.mem = (Window.run mem done).mem ∧ s.fetched = f := by
  induction done using List.reverseRecOn generalizing rest f with
  | nil =>
    refine ⟨⟨mem, f, none, ops⟩, ⟨_, [], ⟨rfl, rfl, fun k v hv => ?_, fun r hr => by cases hr⟩, .nil _⟩, h, rfl, rfl⟩
    obtain ⟨m, hm, hv⟩ := hf k v hv
    rw [List.mem_singleton.mp hm] at hv
    exact hv
  | append_singleton done op ih =>
    classical
    -- first the words that were there before the last operation, then the others
    let Early (k : Fin n) : Prop := op ≠ .invalidate ∧ ∀ v, f k = some v → (Window.run mem done).Had (addr k) v
    let early : Fin n → Option V := fun k => if Early k then f k else none
    have hearly {k : Fin n} {v : V} (hv : early k = some v) : Early k ∧ f k = some v := by
      by_cases hk : Early k
      · exact ⟨hk, (if_pos hk).symm.trans hv⟩
      · cases (if_neg hk).symm.trans hv
    obtain ⟨s, hs, hrest, hmem, hfetched⟩ := ih (show ops = done ++ op :: rest by simpa using h) early
      fun k v hv => (hearly hv).1.2 v (hearly hv).2
    let t : Publication ι V n := { op.perform s with rest := rest }
    have hstep : (machine addr mem ops).step s .write = some t := by
      show step addr s .write = _
      unfold step
      rw [hrest]
    have htmem : t.mem = (Window.run mem (done ++ [op])).mem := by
      rw [Window.run_concat]
      cases op with
      | store i v => exact congrArg (update · i v) hmem
      | invalidate => exact hmem
      | skip => exact hmem
    have htfetched : t.fetched = early := by
      cases op with
      | store i v => exact hfetched
      | invalidate =>
        funext k
        exact (if_neg fun hk : Early k => hk.1 rfl).symm
      | skip => exact hfetched
    obtain ⟨as, u, hrun, humem, hurest, -, hin, hout⟩ :=
      exists_fetch addr mem ops ((List.finRange n).filter fun k => early k ≠ f k) t
    obtain ⟨s₀, bs, hinit, hrun₀⟩ := hs
    refine ⟨u, ⟨s₀, bs ++ (.write :: as), hinit, hrun₀.append (.cons hstep hrun)⟩, hurest, humem.trans htmem,
      funext fun k => ?_⟩
    by_cases hk : early k = f k
    · rw [hout k (by simp [hk]), htfetched]
      exact hk
    · rw [hin k (by simp [hk]), htmem]
      have hlate : ¬Early k := fun hearlyk => hk (if_pos hearlyk)
      cases hfk : f k with
      | none => exact absurd ((if_neg hlate).trans hfk.symm) hk
      | some v =>
        have hnew : (Window.run mem (done ++ [op])).mem (addr k) = v := by
          have hhad := hf k v hfk
          by_contra hne
          apply hlate
          rw [Window.run_concat] at hhad hne
          obtain ⟨m, hm, hv⟩ := hhad
          rcases List.mem_cons.mp hm with rfl | hpast
          · exact absurd hv hne
          · refine ⟨?_, fun v' hv' => ?_⟩
            · rintro rfl
              cases hpast
            · rw [hfk] at hv'
              cases hv'
              cases op with
              | store i w => exact ⟨m, hpast, hv⟩
              | invalidate => cases hpast
              | skip => exact ⟨m, List.mem_cons_of_mem _ hpast, hv⟩
        rw [hnew]

/-- The reader can have exactly the mixtures. -/
theorem exists_cache_iff {done rest : List (Op ι V)} (h : ops = done ++ rest) :
    (∃ s, (machine addr mem ops).Reachable s ∧ s.rest = rest ∧ s.cache = some r) ↔
      (Window.run mem done).Mixture addr r := by
  constructor
  · rintro ⟨s, hs, rfl, hcache⟩
    obtain ⟨done', hops, hwithin⟩ := reachable_within hs
    rw [h] at hops
    rw [List.append_cancel_right hops]
    exact hwithin.cache r hcache
  · intro hmix
    obtain ⟨s, hs, hrest, -, hfetched⟩ := exists_fetched h (fun k => some (r k)) (by
      intro k v hv
      rw [← Option.some.inj hv]
      exact hmix k)
    have hrecord : record s.fetched = some r := by
      rw [hfetched]
      exact dif_pos fun _ => rfl
    refine ⟨{ s with fetched := fun _ => none, cache := some r }, hs.step (a := .keep) ?_, hrest, rfl⟩
    show (record s.fetched).map _ = _
    rw [hrecord]
    rfl

end Publication
