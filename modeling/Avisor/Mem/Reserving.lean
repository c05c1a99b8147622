import Avisor.Mem.Growing

/-!
# Reserving addresses

`mem_alloc_vpage` walks over a range and counts entries that are neither mapped nor reserved: an entry of
a level before the last one only if the range has all its addresses, else it hangs up a table there. A
second walk then marks the entries that were counted.
-/

universe u

namespace Avisor

open Function

/-! ### `mem_alloc_vpage` -/

/-- `INVALID_VA`, which is `MAX_VA`. -/
def invalidVa : Nat := sizeT - 1

/-- `pte_allocable`. -/
def pteAllocable (as : AddrSpace) (pte : Pte) (lvl left addr : Nat) : Bool :=
  decide (lvl = as.pt.dscr.lvls - 1) ||
    (as.pt.dscr.lvlTerm lvl && !pteValid pte &&
      decide (ptLvlsize as.pt lvl ≤ left * pageSize % sizeT) &&
      decide (addr % ptLvlsize as.pt lvl = 0))

/-- The variables of `mem_alloc_vpage`, with the memory. -/
structure VpageSearch where
  s : MmuState
  lvl : Nat
  addr : Nat
  count : Nat
  vpage : Nat
  failed : Bool

section

variable (as : AddrSpace) (va n : Nat)

/-- What the inner loop does about the entry at `pte`. -/
def vpageEntry (x : VpageSearch) (pte : Nat) : Option VpageSearch :=
  let val := x.s.words pte
  if pteCheckRsw val pteRswRsrv || (pteValid val && !pteTable as.pt x.lvl val) then
    some { x with count := 0, vpage := invalidVa, failed := va ≠ invalidVa }
  else if !pteValid val then
    if pteAllocable as val x.lvl (n - x.count) x.addr then
      some { x with
        vpage := if x.count = 0 then x.addr else x.vpage
        count := x.count + ptLvlsize as.pt x.lvl / pageSize }
    else
      (memAllocPt as x.s pte x.lvl x.addr).bind fun (page, s) =>
        if page = 0 then none else some { x with s := s }
  else some x

/-- The inner loop over the entries from `pte` on that are left of a table. -/
def vpageEntries : Nat → VpageSearch → Nat → Option VpageSearch
  | 0, x, _ => some x
  | left + 1, x, pte =>
    if x.count < n && !x.failed then
      (vpageEntry as va n x pte).bind fun x =>
        if x.failed then some x
        else if pteTable as.pt x.lvl (x.s.words pte) then some { x with lvl := x.lvl + 1 }
        else
          let addr := (x.addr + ptLvlsize as.pt x.lvl) % sizeT
          if left = 0 then some { x with addr := addr, lvl := 0 }
          else vpageEntries left { x with addr := addr } (pte + 8)
    else some x

/-- The outer loop, for `fuel` rounds. -/
def vpageLoop : Nat → VpageSearch → Option VpageSearch
  | 0, _ => none
  | fuel + 1, x =>
    if x.count < n && !x.failed then
      if x.addr ≠ 0 && (sizeT - x.addr) % sizeT / pageSize < n then
        some { x with vpage := invalidVa, failed := true }
      else
        let pte := ptGetPte x.s.words as.pt x.lvl x.addr
        let left := ptNentries as.pt x.lvl - ptGetpteindex as.pt x.lvl pte
        (vpageEntries as va n left { x with s := x.s.walk as.pt x.lvl x.addr } pte).bind
          (vpageLoop fuel)
    else some x

/-- The level of the first entry on the way to `addr` that is not valid, the number of levels if all
are. -/
def reserveLevel (words : Nat → Pte) (pt : PageTable) (addr : Nat) : Nat :=
  ((List.range pt.dscr.lvls).find? fun lvl =>
    !pteValid (words (ptGetPte words pt lvl addr))).getD pt.dscr.lvls

/-- The loop that marks the entries, for `fuel` of them. -/
def reserveLoop : Nat → MmuState → Nat → Nat → Option MmuState
  | 0, _, _, _ => none
  | fuel + 1, s, count, addr =>
    if count < n then
      let lvl := reserveLevel s.words as.pt addr
      let last := min lvl (as.pt.dscr.lvls - 1)
      let pte := ptGetPte s.words as.pt last addr
      let s := s.walk as.pt last addr
      reserveLoop fuel (s.setWord pte (pteSetRsw (s.words pte) pteRswRsrv))
        (count + ptLvlsize as.pt lvl / pageSize) ((addr + ptLvlsize as.pt lvl) % sizeT)
    else some s

/-- `mem_alloc_vpage`, its result and the memory behind it. A search that has been through all addresses
goes on for ever. -/
def memAllocVpage (s : MmuState) : Option (Nat × MmuState) :=
  let addr := if va ≠ invalidVa then va else 0
  if addr % pageSize ≠ 0 then some (invalidVa, s)
  else
    (vpageLoop as va n ((as.pt.dscr.lvls + 1) * (sizeT / pageSize + 1))
      ⟨s, 0, addr, 0, invalidVa, false⟩).bind fun x =>
        if x.vpage ≠ invalidVa && !x.failed then
          (reserveLoop as n (n + 1) x.s 0 x.vpage).map fun s => (x.vpage, s)
        else some (x.vpage, x.s)

end

/-- `mem_alloc_map`. -/
def memAllocMap (as : AddrSpace) (s : MmuState) (page : Option Ppages) (va nrPages : Nat) (flags : Pte) :
    Option (Nat × MmuState) :=
  (memAllocVpage as va nrPages s).bind fun (address, s) =>
    if address ≠ invalidVa then
      (memMap as s address page nrPages flags).map fun s => (address, s)
    else some (address, s)

/-- `mem_alloc_map_dev`. -/
def memAllocMapDev (as : AddrSpace) (s : MmuState) (va pa nrPages : Nat) : Option (Nat × MmuState) :=
  memAllocMap as s (some ⟨pa, nrPages⟩) va nrPages
    (if as.type = .hyp then pteHypDevFlags else pteVmDevFlags)

/-- The entry where the walk of `va` ends is reserved. -/
def reserved (words : Nat → Pte) (pt : PageTable) (va : Nat) : Bool :=
  pteCheckRsw (words (ptGetPte words pt (walkEnd words pt va) va)) pteRswRsrv

/-! ### What is in use -/

variable {κ : Type u}

/-- The tables say that an address is neither mapped nor reserved. -/
structure Unused (dscr : PtDscr) (root : κ → Nat) (words : Nat → Pte) (b : κ × Nat) : Prop where
  unmapped : pteValid (pageView dscr root words b) = false
  unreserved : pteCheckRsw (pageView dscr root words b) pteRswRsrv = false

section

variable {dscr : PtDscr} {root : κ → Nat} {s t u : MmuState} {k : κ} {l m a c va bound n : Nat}
  {b : κ × Nat} {type : AsType}

theorem pteCheckRsw_pteView (pte flag : Pte) : pteCheckRsw (pteView pte) flag = pteCheckRsw pte flag := by
  unfold pteView pteCheckRsw
  split
  · rfl
  · rw [BitVec.and_assoc, BitVec.and_self]

theorem reserved_eq (words : Nat → Pte) (va : Nat) : reserved words ⟨root k, dscr⟩ va =
    pteCheckRsw (pageView dscr root words (k, va)) pteRswRsrv := by
  have hstops := RadixTable.stops_stop (tables dscr root) words (k, va)
  rw [pageView_eq hstops, pteCheckRsw_pteView]
  unfold reserved
  rw [ptGetPte_eq, walkEnd_eq]

theorem unused_iff (h : PageTablesWf dscr root s) (hlow : va < 2 ^ dscr.lvlWdt 0) :
    Unused dscr root s.words (k, va) ↔ translate s.words ⟨root k, dscr⟩ va = none ∧
      reserved s.words ⟨root k, dscr⟩ va = false := by
  rw [translate_eq_none h hlow, reserved_eq]
  exact ⟨fun hunused => ⟨hunused.unmapped, hunused.unreserved⟩, fun hboth => ⟨hboth.1, hboth.2⟩⟩

/-! ### Entries that a range is made of -/

/-- The addresses from `a` up to `b` are those of whole entries where lookups stop. -/
inductive Tiles (dscr : PtDscr) (root : κ → Nat) (k : κ) (words : Nat → Pte) : Nat → Nat → Prop
  | nil (a : Nat) : Tiles dscr root k words a a
  | cons {l a b : Nat} (stops : (tables dscr root).Stops words l (k, a))
      (aligned : a % ptLvlsize ⟨root k, dscr⟩ l = 0)
      (rest : Tiles dscr root k words (a + ptLvlsize ⟨root k, dscr⟩ l) b) : Tiles dscr root k words a b

section

variable {words words' : Nat → Pte}

theorem Tiles.le (h : Tiles dscr root k words a bound) : a ≤ bound := by
  induction h with
  | nil => exact le_rfl
  | cons _ _ _ ih => exact (Nat.le_add_right _ _).trans ih

theorem Tiles.snoc (h : Tiles dscr root k words a bound)
    (hstops : (tables dscr root).Stops words l (k, bound))
    (haligned : bound % ptLvlsize ⟨root k, dscr⟩ l = 0) :
    Tiles dscr root k words a (bound + ptLvlsize ⟨root k, dscr⟩ l) := by
  induction h with
  | nil => exact .cons hstops haligned (.nil _)
  | cons hfirst hstart _ ih => exact .cons hfirst hstart (ih hstops haligned)

/-- The entries stay if lookups still stop at them. -/
theorem Tiles.mono (h : Tiles dscr root k words a bound)
    (hstops : ∀ l c, c + ptLvlsize ⟨root k, dscr⟩ l ≤ bound →
      c % ptLvlsize ⟨root k, dscr⟩ l = 0 → (tables dscr root).Stops words l (k, c) →
      (tables dscr root).Stops words' l (k, c)) : Tiles dscr root k words' a bound := by
  induction h with
  | nil => exact .nil _
  | cons hfirst hstart hrest ih => exact .cons (hstops _ _ hrest.le hstart hfirst) hstart (ih hstops)

/-- An address of a range of entries is in one of them. -/
theorem Tiles.exists_tile (h : Tiles dscr root k words a bound) (hc : a ≤ c) (hlt : c < bound) :
    ∃ l b, (tables dscr root).Stops words l (k, b) ∧ b % ptLvlsize ⟨root k, dscr⟩ l = 0 ∧ a ≤ b ∧
      b ≤ c ∧ c < b + ptLvlsize ⟨root k, dscr⟩ l ∧ b + ptLvlsize ⟨root k, dscr⟩ l ≤ bound := by
  induction h with
  | nil => exact absurd hlt (Nat.not_lt_of_le hc)
  | @cons l a bound hfirst hstart hrest ih =>
    rcases Nat.lt_or_ge c (a + ptLvlsize ⟨root k, dscr⟩ l) with hin | hout
    · exact ⟨l, a, hfirst, hstart, le_rfl, hc, hin, hrest.le⟩
    · obtain ⟨l', b, hstops, haligned, hb, hrest'⟩ := ih hout hlt
      exact ⟨l', b, hstops, haligned, (Nat.le_add_right _ _).trans hb, hrest'⟩

end

/-- Two addresses of an entry, by its start. -/
theorem same_of_tile (hl : l ≤ dscr.last) (haligned : a % ptLvlsize ⟨root k, dscr⟩ l = 0) (hle : a ≤ c)
    (hlt : c < a + ptLvlsize ⟨root k, dscr⟩ l)
    (hspan : a + ptLvlsize ⟨root k, dscr⟩ l ≤ 2 ^ dscr.lvlWdt 0) :
    (tables dscr root).Same l (k, a) (k, c) := by
  have hpos := ptLvlsize_pos ⟨root k, dscr⟩ l
  rw [same_iff_div hl (by omega) (by omega)]
  have ha := Nat.div_add_mod' a (ptLvlsize ⟨root k, dscr⟩ l)
  generalize ptLvlsize ⟨root k, dscr⟩ l = size at *
  symm
  rw [Nat.div_eq_iff hpos]
  omega

/-- A table that is hung up behind a range leaves its entries. -/
theorem Tiles.hung (h : Tiles dscr root k s.words a bound) (hung : Hung dscr root s t l (k, c))
    (hl : l < dscr.last) (hle : bound ≤ c) (hspan : c < 2 ^ dscr.lvlWdt 0) :
    Tiles dscr root k t.words a bound := by
  refine h.mono fun m d hd hstart hstops => ?_
  have hpos := ptLvlsize_pos ⟨root k, dscr⟩ m
  obtain ⟨hm, hreach, hleft⟩ := RadixTable.stops_iff.mp hstops
  refine RadixTable.stops_iff.mpr ⟨hm, (hung.keeps m (k, d) hm hreach).1, fun hlt hnext => ?_⟩
  rcases hung.added (m + 1) (k, d) hlt hnext with hold | ⟨heq, hsame⟩
  · exact hleft hlt hold
  · obtain rfl := Nat.succ_injective heq
    rw [same_iff_div hl.le hspan (by omega)] at hsame
    have hd' := Nat.div_add_mod' d (ptLvlsize ⟨root k, dscr⟩ m)
    have hc := Nat.div_add_mod' c (ptLvlsize ⟨root k, dscr⟩ m)
    have hrest := Nat.mod_lt c hpos
    rw [hsame] at hc
    omega

theorem Tiles.stored (h : Tiles dscr root k s.words a bound) {va' bound' : Nat}
    (hstored : Stored dscr root k s t va' bound') : Tiles dscr root k t.words a bound := by
  refine h.mono fun m d _ _ hstops => ?_
  obtain ⟨hm, hreach, hleft⟩ := RadixTable.stops_iff.mp hstops
  refine RadixTable.stops_iff.mpr ⟨hm, (hstored.reaches m _ hm).mpr hreach, fun hlt hnext => ?_⟩
  exact hleft hlt ((hstored.reaches (m + 1) _ hlt).mp hnext)

end

end Avisor
