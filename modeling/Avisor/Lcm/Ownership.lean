import Avisor.Lcm.Invariant

/-!
# Whose snapshot is restored

A restore is to load the caller's own snapshots. The code keeps one `latest_ss` and one list of
snapshots for all VMs and looks at `vm_id` nowhere, so what a restore loads is the caller's own
exactly if the caller made the last checkpoint, or asks for a number that is one of its own.
-/

namespace Avisor

open Memory

/-- The last snapshot that VM `v` has taken. -/
def LcmRun.lastOf (x : LcmRun) (v : VmId) : Option Taken :=
  x.taken.find? fun e => e.vm = v

/-- A restore of VM `v` by `LATEST_SSID` goes on with the last snapshot of `v`, or a restart if there
is none, and one by number with the snapshot of `v` of that number, or stops. -/
def RestoresOwn (x : LcmRun) : LcmAction → Prop
  | .restore v _ _ arg0 =>
    if arg0 = sizeMax then
      match x.lastOf v with
      | none => ssToRestore x.state arg0 = .restart
      | some e => ssToRestore x.state arg0 = .load e.ss
    else ssToRestore x.state arg0 = .halt ∨
      ∃ e, x.byId arg0 = some e ∧ e.vm = v ∧ ssToRestore x.state arg0 = .load e.ss
  | _ => True

/-- What a restore of VM `v` must find. By `LATEST_SSID`: nobody but `v` made the last checkpoint. By
number, if it is the first one: the snapshot of that number is of `v`, or there is none and the walk
over the memory behind the last snapshot ends at no address. -/
def NamesOwn (x : LcmRun) : LcmAction → Prop
  | .restore v _ _ arg0 =>
    if arg0 = sizeMax then ∀ e, x.taken.head? = some e → e.vm = v
    else x.state.first = true →
      (∀ e, x.byId arg0 = some e → arg0 ≤ intMax → e.vm = v) ∧
      (x.byId arg0 = none → ∀ ss, getSsById x.state arg0 = some ss → ss = 0)
  | _ => True

/-- Each checkpoint has room in the pool, and each restore stays in the memory of its VM. -/
def StaysInside (cfg : LcmConfig) (x : LcmRun) : LcmAction → Prop
  | .checkpoint v _ par => CheckpointFits cfg x v par
  | .restore v _ par _ => par = some (cfg.pa v) ∧ (cfg.vm v).dmemSize ≤ (cfg.vm v).size
  | _ => True

variable {cfg : LcmConfig} {x y : LcmRun} {v : VmId} {arg0 : Nat} {e : Taken}

theorem RestoresOwn.loadsOwn {i : Nat} {par : Option Nat} (h : RestoresOwn x (.restore v i par arg0)) :
    LoadsOwn x v arg0 := by
  intro ss hss
  unfold RestoresOwn at h
  dsimp only at h
  by_cases hlatest : arg0 = sizeMax
  · rw [if_pos hlatest] at h
    cases hlast : x.lastOf v with
    | none =>
      rw [hlast] at h
      dsimp only at h
      rw [h] at hss
      cases hss
    | some e =>
      rw [hlast] at h
      dsimp only at h
      rw [h] at hss
      cases hss
      have hvm : decide (e.vm = v) = true := List.find?_some (p := fun e : Taken => e.vm = v) hlast
      exact ⟨e, List.mem_of_find?_eq_some hlast, of_decide_eq_true hvm, rfl⟩
  · rw [if_neg hlatest] at h
    rcases h with hhalt | ⟨e, he, hvm, hload⟩
    · rw [hhalt] at hss
      cases hss
    · rw [hload] at hss
      cases hss
      exact ⟨e, LcmRun.mem_of_byId he, hvm, rfl⟩

namespace LcmWf

theorem ss_pos (h : LcmWf cfg x) (he : e ∈ x.taken) : e.ss ≠ 0 := by
  have hbase := (h.entry e he).base_le
  have hpos : 0 < cfg.ssPoolBase := Nat.lt_of_lt_of_le (by decide) (Nat.le_add_left 40 _)
  omega

theorem latest_own_iff (h : LcmWf cfg x) :
    (match x.lastOf v with
      | none => ssToRestore x.state sizeMax = .restart
      | some e => ssToRestore x.state sizeMax = .load e.ss) ↔
    ∀ e, x.taken.head? = some e → e.vm = v := by
  have hlatest := h.latest
  have hlaid := h.laid
  have hpos (e) (he : e ∈ x.taken) := h.ss_pos he
  unfold LcmRun.lastOf ssToRestore
  rw [if_pos rfl, hlatest]
  cases htaken : x.taken with
  | nil => exact iff_of_true rfl fun e he => absurd he (by simp)
  | cons d es =>
    rw [htaken] at hlaid hpos
    have hd := hpos d (.head es)
    simp only [List.head?_cons, Option.map_some, Option.getD_some, hd, if_false, Option.some.injEq,
      forall_eq', List.find?_cons]
    by_cases hvm : d.vm = v
    · simp only [hvm, decide_true]
    · simp only [hvm, decide_false, iff_false]
      cases hfind : es.find? fun e => decide (e.vm = v) with
      | none => simp
      | some e =>
        -- an older snapshot lies below the last one
        have hle := hlaid.2.le_last (List.mem_of_find?_eq_some hfind)
        have hlen : 0 < cfg.ssLen e.vm := by
          unfold LcmConfig.ssLen sizeofSnapshot
          omega
        simp only [Restore.load.injEq]
        omega

theorem getSsById_of_lt (h : intMax < arg0) : Avisor.getSsById x.state arg0 = none := by
  unfold Avisor.getSsById
  cases hpool : x.state.ssPool with
  | none => rfl
  | some pool =>
    have hle : (ssWalk x.state.mem ((pool.base + pool.size) % sizeT) arg0 (min arg0 intMax) 0
        pool.base).1 ≤ 0 + min arg0 intMax := ssWalk_fst_le
    simp only [Option.bind_eq_bind, Option.bind_some]
    rw [if_neg (by omega)]

theorem byId_own_iff (h : LcmWf cfg x) (hid : arg0 ≠ sizeMax) :
    (ssToRestore x.state arg0 = .halt ∨
      ∃ e, x.byId arg0 = some e ∧ e.vm = v ∧ ssToRestore x.state arg0 = .load e.ss) ↔
    (x.state.first = true →
      (∀ e, x.byId arg0 = some e → arg0 ≤ intMax → e.vm = v) ∧
      (x.byId arg0 = none → ∀ ss, Avisor.getSsById x.state arg0 = some ss → ss = 0)) := by
  unfold ssToRestore
  rw [if_neg hid]
  cases hfirst : x.state.first with
  | false => exact iff_of_true (.inl (if_pos rfl)) fun hfalse => absurd hfalse (by simp)
  | true =>
    simp only [Bool.true_eq_false, if_false, forall_const]
    cases hbyId : x.byId arg0 with
    | none =>
      simp only [reduceCtorEq, false_and, exists_false, or_false, false_implies, implies_true,
        true_and, forall_const]
      cases hfound : Avisor.getSsById x.state arg0 with
      | none => simp
      | some ss => by_cases hss : ss = 0 <;> simp [hss]
    | some e =>
      have hpos := h.ss_pos (LcmRun.mem_of_byId hbyId)
      simp only [Option.some.injEq, exists_eq_left', forall_eq', reduceCtorEq, false_implies, and_true]
      by_cases hint : arg0 ≤ intMax
      · simp [h.getSsById hbyId hint, hpos, hint]
      · simp [getSsById_of_lt (x := x) (Nat.lt_of_not_le hint), hint]

theorem restoresOwn_iff (h : LcmWf cfg x) {a : LcmAction} : RestoresOwn x a ↔ NamesOwn x a := by
  cases a with
  | restore v i par arg0 =>
    unfold RestoresOwn NamesOwn
    dsimp only
    by_cases hlatest : arg0 = sizeMax
    · subst hlatest
      rw [if_pos rfl, if_pos rfl]
      exact h.latest_own_iff
    · rw [if_neg hlatest, if_neg hlatest]
      exact h.byId_own_iff hlatest
  | _ => exact Iff.rfl

end LcmWf

theorem StaysInside.keepsApart {a : LcmAction} (h : StaysInside cfg x a) (hown : RestoresOwn x a) :
    KeepsApart cfg x a := by
  cases a with
  | checkpoint v i par => exact h
  | restore v i par arg0 => exact ⟨h.1, h.2, hown.loadsOwn⟩
  | guestWrite v off byte => trivial
  | vcpuWrite v i off byte => trivial

/-- In a run whose checkpoints have room and whose restores stay in their VM's memory, each restore
goes on with the caller's own snapshots exactly if each one names them. -/
theorem restoresOwn_run_iff {as : List LcmAction} (h : (lcmMachine cfg).Init x)
    (hinside : (lcmMachine cfg).EachStep (StaysInside cfg) x as) :
    (lcmMachine cfg).EachStep RestoresOwn x as ↔ (lcmMachine cfg).EachStep NamesOwn x as := by
  refine Machine.eachStep_congr (I := LcmWf cfg) (fun x a y hx _ _ => hx.restoresOwn_iff) ?_
    (LcmWf.init h) hinside
  exact fun x a y hx hin hown hstep => hx.step (hin.keepsApart hown) hstep

/-- Who restores the latest snapshot when another VM took it gets that VM's. -/
theorem LcmBoot.not_restoresOwn {x : LcmRun} {w : VmId} {i j q : Nat} {par : Option Nat}
    (h : LcmBoot cfg x) (hv : v < cfg.nrVms) (hi : i < cfg.nrCpus v) (hw : w < cfg.nrVms)
    (hj : j < cfg.nrCpus w) (hne : v ≠ w) (hfit : CheckpointFits cfg x v par) :
    ¬ (lcmMachine cfg).EachStep RestoresOwn x
      [.checkpoint v i par, .restore w j (some q) sizeMax] := by
  intro hall
  obtain ⟨t, ht, hspec⟩ := h.checkpoint hv hi hfit
  have hwf : LcmWf cfg _ := (LcmWf.init h).step (a := .checkpoint v i par) hfit ht
  have hpos := hwf.ss_pos (.head _)
  dsimp only at hpos
  obtain ⟨u, hu⟩ : ∃ u, restoreSnapshotHanlder cfg t (cfg.vcpuAddr w j) (some q) sizeMax = some u := by
    have hchoice : ssToRestore t sizeMax = .load cfg.ssPoolBase := by
      rw [ssToRestore, if_pos rfl, hspec.latestSs, if_neg hpos]
    unfold restoreSnapshotHanlder restoreSnapshotHanlderBySs
    rw [hchoice]
    dsimp only
    rw [cfg.currentVm_eq hw (hwf.vcpu_vm w hw j hj)]
    exact ⟨_, rfl⟩
  have hstep : (lcmMachine cfg).step
      { state := t, taken := [⟨v, i, cfg.ssPoolBase, x.state.mem⟩] } (.restore w j (some q) sizeMax) =
        some { state := u, taken := [⟨v, i, cfg.ssPoolBase, x.state.mem⟩] } := by
    change lcmStep cfg _ (.restore w j (some q) sizeMax) = _
    unfold lcmStep
    dsimp only
    rw [if_pos ⟨hw, hj⟩, hu, Option.map_some]
  have hown := hwf.restoresOwn_iff.mp ((hall _ ht).2 _ hstep).1
  unfold NamesOwn at hown
  dsimp only at hown
  rw [if_pos rfl] at hown
  exact hne (hown _ rfl)

/-- VM 1 restores the latest snapshot, which VM 0 took. -/
theorem restoresOwn_fails :
    (lcmMachine (pairConfig 0x1000 0x1000 (by decide) (by decide))).Init pairBoot ∧
      ¬ (lcmMachine (pairConfig 0x1000 0x1000 (by decide) (by decide))).EachStep RestoresOwn pairBoot
        [.checkpoint 0 0 (some 0x60000000), .restore 1 0 (some 0x60010000) sizeMax] :=
  ⟨pairBoot_init, LcmBoot.not_restoresOwn pairBoot_init (by decide) (by decide) (by decide) (by decide)
    (by decide) ⟨rfl, by decide⟩⟩

/-- The condition on that run. -/
theorem restoresOwn_run_iff_pair :
    (lcmMachine (pairConfig 0x1000 0x1000 (by decide) (by decide))).EachStep RestoresOwn pairBoot
        [.checkpoint 0 0 (some 0x60000000), .restore 0 0 (some 0x60000000) sizeMax] ↔
      (lcmMachine (pairConfig 0x1000 0x1000 (by decide) (by decide))).EachStep NamesOwn pairBoot
        [.checkpoint 0 0 (some 0x60000000), .restore 0 0 (some 0x60000000) sizeMax] :=
  restoresOwn_run_iff pairBoot_init fun y _ =>
    ⟨⟨rfl, by decide⟩, fun z _ => ⟨⟨rfl, by decide⟩, trivial⟩⟩

end Avisor
