import Mathlib.Logic.Relation
import Mathlib.Tactic
import BranchBound.Scalar.Rational
import BranchBound.Search.RowStore

/-!
# Chains of branch rows

A row store is a tree of chains, kept in the order of creation. While every row goes below one that the store
holds, links lead to earlier rows (`RowStore.Ordered`): every chain ends, it is what was noted when its last row
was pushed, and it stays so until that row is dropped (`chains_as_noted`). A row below an id that is no longer
held may end up linked to itself, and then its chain has no end (`stale_parent_cycles`).
-/

namespace BranchBound.Search

open Integer (BranchRow)

variable {α : Type}

namespace RowStore

/-! ### Following links -/

/-- Every row is linked to an earlier one. -/
def Ordered (s : RowStore α) : Prop :=
  ∀ (i : Nat) (linked : LinkedRow α), s.rows[i]? = some linked → ∀ parent, linked.parent = some parent → parent < i

/-- The row at position `i` is linked to position `j`. -/
def Links (s : RowStore α) (i j : Nat) : Prop :=
  ∃ linked, s.rows[i]? = some linked ∧ linked.parent = some j

variable {s t : RowStore α} {id : Nat}

theorem walk_none (s : RowStore α) (fuel : Nat) (found : List (BranchRow α)) : s.walk fuel none found = some found := by
  unfold walk
  rfl

theorem walk_outside (outside : s.rows[id]? = none) (fuel : Nat) (found : List (BranchRow α)) :
    s.walk fuel (some id) found = some found := by
  unfold walk
  simp only [outside]

theorem walk_spent {linked : LinkedRow α} (read : s.rows[id]? = some linked) (found : List (BranchRow α)) :
    s.walk 0 (some id) found = none := by
  unfold walk
  simp only [read]

theorem walk_link {linked : LinkedRow α} (read : s.rows[id]? = some linked) (fuel : Nat) (found : List (BranchRow α)) :
    s.walk (fuel + 1) (some id) found = s.walk fuel linked.parent (linked.row :: found) := by
  rw [walk]
  simp only [read]

theorem walk_append (s : RowStore α) (fuel : Nat) (tip : Option Nat) (found more : List (BranchRow α)) :
    s.walk fuel tip (found ++ more) = (s.walk fuel tip found).map (· ++ more) := by
  fun_induction s.walk fuel tip found with
  | case1 fuel found => rw [walk_none, Option.map_some]
  | case2 fuel found id outside => rw [walk_outside outside, Option.map_some]
  | case3 found id linked read => rw [walk_spent read, Option.map_none]
  | case4 found id linked read fuel ih => rw [walk_link read, ← ih, List.cons_append]

/-- Links that come back to a row have no end. -/
theorem walk_of_cycle (cycle : Relation.TransGen s.Links id id) (fuel : Nat) (found : List (BranchRow α)) :
    s.walk fuel (some id) found = none := by
  induction fuel generalizing id found with
  | zero =>
    obtain ⟨next, ⟨linked, read, -⟩, -⟩ := Relation.TransGen.head'_iff.mp cycle
    exact walk_spent read found
  | succ fuel ih =>
    obtain ⟨next, link, back⟩ := Relation.TransGen.head'_iff.mp cycle
    obtain ⟨linked, read, parent⟩ := link
    rw [walk_link read, parent]
    exact ih (.tail' back ⟨linked, read, parent⟩) _

/-! ### Ordered links -/

/-- From position `id` of an ordered store there are at most `id + 1` rows to pass, and as many links are enough. -/
theorem Ordered.walk (ordered : s.Ordered) (id : Nat) (found : List (BranchRow α)) :
    ∃ rows, rows.length ≤ id + 1 ∧ ∀ fuel, id < fuel → s.walk fuel (some id) found = some (rows ++ found) := by
  induction id using Nat.strong_induction_on generalizing found with
  | _ id ih =>
    cases read : s.rows[id]? with
    | none => exact ⟨[], by simp, fun fuel _ => walk_outside read fuel found⟩
    | some linked =>
      cases parent : linked.parent with
      | none =>
        refine ⟨[linked.row], by simp, fun fuel enough => ?_⟩
        obtain ⟨fuel, rfl⟩ : ∃ k, fuel = k + 1 := ⟨fuel - 1, by omega⟩
        rw [walk_link read, parent, walk_none]
        rfl
      | some before =>
        have earlier := ordered id linked read before parent
        obtain ⟨rows, few, walked⟩ := ih before earlier (linked.row :: found)
        refine ⟨rows ++ [linked.row], ?_, fun fuel enough => ?_⟩
        · rw [List.length_append, List.length_singleton]
          omega
        · obtain ⟨fuel, rfl⟩ : ∃ k, fuel = k + 1 := ⟨fuel - 1, by omega⟩
          rw [walk_link read, parent, walked fuel (by omega), List.append_assoc]
          rfl

/-- The chain of any position ends, and the number of rows is enough links for it. -/
theorem Ordered.chain (ordered : s.Ordered) (tip : Option Nat) :
    ∃ rows, rows.length ≤ s.rows.size ∧ ∀ fuel, s.rows.size ≤ fuel → s.walk fuel tip [] = some rows := by
  cases tip with
  | none => exact ⟨[], by simp, fun fuel _ => walk_none s fuel []⟩
  | some id =>
    by_cases inside : id < s.rows.size
    · obtain ⟨rows, few, walked⟩ := ordered.walk id []
      refine ⟨rows, by omega, fun fuel enough => ?_⟩
      rw [walked fuel (by omega), List.append_nil]
    · have outside : s.rows[id]? = none := Array.getElem?_eq_none (by omega)
      exact ⟨[], by simp, fun fuel _ => walk_outside outside fuel []⟩

theorem Ordered.lt_of_transGen (ordered : s.Ordered) {i j : Nat} (path : Relation.TransGen s.Links i j) : j < i := by
  induction path with
  | single link =>
    obtain ⟨linked, read, parent⟩ := link
    exact ordered i linked read _ parent
  | tail _ link earlier =>
    obtain ⟨linked, read, parent⟩ := link
    exact (ordered _ linked read _ parent).trans earlier

/-- Links from a position reach earlier rows alone, so nothing else matters to them. -/
theorem Ordered.walk_eq (ordered : s.Ordered) (same : ∀ i ≤ id, t.rows[i]? = s.rows[i]?) (fuel : Nat)
    (found : List (BranchRow α)) : t.walk fuel (some id) found = s.walk fuel (some id) found := by
  induction id using Nat.strong_induction_on generalizing fuel found with
  | _ id ih =>
    have here := same id (le_refl id)
    cases read : s.rows[id]? with
    | none => rw [walk_outside read, walk_outside (here.trans read)]
    | some linked =>
      cases fuel with
      | zero => rw [walk_spent read, walk_spent (here.trans read)]
      | succ fuel =>
        rw [walk_link read, walk_link (here.trans read)]
        cases parent : linked.parent with
        | none => rw [walk_none, walk_none]
        | some before =>
          have earlier := ordered id linked read before parent
          exact ih before earlier (fun i le => same i (le.trans earlier.le)) fuel _

theorem held_of_read (held : id < s.rows.size) (same : t.rows[id]? = s.rows[id]?) : id < t.rows.size := by
  rw [Array.getElem?_eq_getElem held] at same
  exact (Array.getElem?_eq_some_iff.mp same).1

theorem Ordered.chain?_eq (ordered : s.Ordered) (held : id < s.rows.size)
    (same : ∀ i ≤ id, t.rows[i]? = s.rows[i]?) : t.chain? (some id) = s.chain? (some id) := by
  have held' := held_of_read held (same id (le_refl id))
  obtain ⟨rows, -, walked⟩ := ordered.walk id []
  unfold chain?
  rw [ordered.walk_eq same, walked _ held, walked _ held']

/-! ### One operation -/

theorem getElem?_push (s : RowStore α) (row : BranchRow α) (parent : Option Nat) (i : Nat) :
    (s.push row parent).1.rows[i]? = if i = s.rows.size then some ⟨row, parent⟩ else s.rows[i]? :=
  Array.getElem?_push

theorem size_push (s : RowStore α) (row : BranchRow α) (parent : Option Nat) :
    (s.push row parent).1.rows.size = s.rows.size + 1 :=
  Array.size_push ..

theorem getElem?_truncate (s : RowStore α) (start i : Nat) :
    (s.truncate start).rows[i]? = if i < start then s.rows[i]? else none := by
  unfold truncate
  rw [Array.take_eq_extract, Array.getElem?_extract, Nat.sub_zero, Nat.zero_add]
  by_cases kept : i < start
  · by_cases held : i < s.rows.size
    · rw [if_pos (lt_min kept held), if_pos kept]
    · rw [if_neg (by omega), if_pos kept, Array.getElem?_eq_none (by omega)]
  · rw [if_neg (by omega), if_neg kept]

theorem size_truncate (s : RowStore α) (start : Nat) : (s.truncate start).rows.size = min start s.rows.size := by
  simp [truncate]

theorem ordered_empty : (empty : RowStore α).Ordered := by
  intro i linked read
  simp [empty] at read

theorem Ordered.push (ordered : s.Ordered) {parent : Option Nat} (held : ∀ id ∈ parent, id < s.rows.size)
    (row : BranchRow α) : (s.push row parent).1.Ordered := by
  intro i linked read before linkedTo
  rw [getElem?_push] at read
  split at read
  · rename_i last
    cases read
    exact last ▸ held before linkedTo
  · exact ordered i linked read before linkedTo

theorem Ordered.truncate (ordered : s.Ordered) (start : Nat) : (s.truncate start).Ordered := by
  intro i linked read
  rw [getElem?_truncate] at read
  split at read
  · exact ordered i linked read
  · cases read

theorem Ordered.chain?_push (ordered : s.Ordered) {parent : Option Nat} (held : ∀ id ∈ parent, id < s.rows.size)
    (row : BranchRow α) :
    (s.push row parent).1.chain? (some (s.push row parent).2) = (s.chain? parent).map (· ++ [row]) := by
  have last : (s.push row parent).1.rows[s.rows.size]? = some ⟨row, parent⟩ := by rw [getElem?_push, if_pos rfl]
  show RowStore.walk _ _ (some s.rows.size) [] = (s.walk s.rows.size parent []).map (· ++ [row])
  rw [size_push, walk_link last, ← walk_append]
  cases parent with
  | none => rw [walk_none, walk_none]; rfl
  | some id =>
    refine ordered.walk_eq (fun i le => ?_) s.rows.size [row]
    have inside := held id rfl
    rw [getElem?_push, if_neg (by omega)]

end RowStore

/-! ### Sequences of operations -/

/-- One operation on a row store. -/
inductive Edit (α : Type) where
  | push (row : BranchRow α) (parent : Option Nat)
  | truncate (start : Nat)
  | clear

/-- A row store with the ids it has handed out, each with the rows asked for under it, latest first. -/
structure Ledger (α : Type) where
  store : RowStore α := .empty
  notes : List (Nat × List (BranchRow α)) := []

namespace Ledger

/-- The rows noted for an id; without one, none. -/
def noted (l : Ledger α) : Option Nat → List (BranchRow α)
  | none => []
  | some id => (l.notes.lookup id).getD []

def edit (l : Ledger α) : Edit α → Ledger α
  | .push row parent =>
    let (store, id) := l.store.push row parent
    ⟨store, (id, l.noted parent ++ [row]) :: l.notes⟩
  | .truncate start => { l with store := l.store.truncate start }
  | .clear => { l with store := .empty }

def after (l : Ledger α) (edits : List (Edit α)) : Ledger α :=
  edits.foldl edit l

/-- Each edit is fit at its turn. -/
def Permits (fit : Ledger α → Edit α → Prop) : Ledger α → List (Edit α) → Prop
  | _, [] => True
  | l, e :: rest => fit l e ∧ (l.edit e).Permits fit rest

end Ledger

/-- A row goes below one that the store holds, or below none. -/
def Edit.Live (l : Ledger α) : Edit α → Prop
  | .push _ parent => ∀ id ∈ parent, id < l.store.rows.size
  | .truncate _ => True
  | .clear => True

/-- The ids of the edit were handed out before, be their rows still held or not. -/
def Edit.Known (l : Ledger α) : Edit α → Prop
  | .push _ parent => ∀ id ∈ parent, id ∈ l.notes.map Prod.fst
  | .truncate start => start ∈ l.notes.map Prod.fst
  | .clear => True

/-- The row of the id is not dropped. -/
def Edit.Spares (id : Nat) : Edit α → Prop
  | .push _ _ => True
  | .truncate start => id < start
  | .clear => False

theorem Edit.Spares.mono {e : Edit α} {id id' : Nat} (spares : e.Spares id) (le : id' ≤ id) : e.Spares id' := by
  cases e with
  | push row parent => trivial
  | truncate start => exact le.trans_lt spares
  | clear => exact spares

namespace Ledger

variable {l : Ledger α} {e : Edit α} {edits : List (Edit α)} {id : Nat}

/-- An edit that spares a row leaves it and those before it as they are. -/
theorem getElem?_edit (held : id < l.store.rows.size) (spares : e.Spares id) :
    ∀ i ≤ id, (l.edit e).store.rows[i]? = l.store.rows[i]? := by
  intro i le
  cases e with
  | push row parent =>
    show (l.store.push row parent).1.rows[i]? = _
    rw [RowStore.getElem?_push, if_neg (by omega)]
  | truncate start =>
    have kept : id < start := spares
    show (l.store.truncate start).rows[i]? = _
    rw [RowStore.getElem?_truncate, if_pos (by omega)]
  | clear => cases spares

theorem getElem?_after (held : id < l.store.rows.size) (spared : ∀ e ∈ edits, e.Spares id) :
    ∀ i ≤ id, (l.after edits).store.rows[i]? = l.store.rows[i]? := by
  induction edits generalizing l with
  | nil => exact fun i _ => rfl
  | cons e rest ih =>
    rw [List.forall_mem_cons] at spared
    have same := getElem?_edit held spared.1
    intro i le
    exact (ih (RowStore.held_of_read held (same id (le_refl id))) spared.2 i le).trans (same i le)

/-- Links lead to earlier rows, and the chain of every row is what was noted for it. -/
structure Sound (l : Ledger α) : Prop where
  ordered : l.store.Ordered
  chains : ∀ id < l.store.rows.size, ∃ rows, l.notes.lookup id = some rows ∧ l.store.chain? (some id) = some rows

theorem Sound.chain_noted (sound : l.Sound) {tip : Option Nat} (held : ∀ id ∈ tip, id < l.store.rows.size) :
    l.store.chain? tip = some (l.noted tip) := by
  cases tip with
  | none => exact RowStore.walk_none _ _ _
  | some id =>
    obtain ⟨rows, listed, chain⟩ := sound.chains id (held id rfl)
    rw [chain, noted, listed, Option.getD_some]

/-- A chain stays as it is until its last row is dropped, whatever else is pushed or dropped. -/
theorem Sound.chain?_after (sound : l.Sound) (held : id < l.store.rows.size) (edits : List (Edit α))
    (spared : ∀ e ∈ edits, e.Spares id) :
    (l.after edits).store.chain? (some id) = l.store.chain? (some id) :=
  sound.ordered.chain?_eq held (getElem?_after held spared)

theorem sound_of_empty (notes : List (Nat × List (BranchRow α))) : (⟨.empty, notes⟩ : Ledger α).Sound where
  ordered := RowStore.ordered_empty
  chains id held := by simp [RowStore.empty] at held

theorem Sound.push (sound : l.Sound) {parent : Option Nat} (held : ∀ id ∈ parent, id < l.store.rows.size)
    (row : BranchRow α) : (l.edit (.push row parent)).Sound where
  ordered := sound.ordered.push held row
  chains id below := by
    have below : id < (l.store.push row parent).1.rows.size := below
    rw [RowStore.size_push] at below
    by_cases last : id = l.store.rows.size
    · subst last
      refine ⟨l.noted parent ++ [row], List.lookup_cons_self, ?_⟩
      exact (sound.ordered.chain?_push held row).trans (by rw [sound.chain_noted held, Option.map_some])
    · have inside : id < l.store.rows.size := by omega
      obtain ⟨rows, listed, chain⟩ := sound.chains id inside
      refine ⟨rows, ?_, ?_⟩
      · show List.lookup id ((l.store.rows.size, _) :: l.notes) = _
        rw [List.lookup_cons, beq_false_of_ne last]
        exact listed
      · exact (sound.chain?_after inside [.push row parent] (by simp [Edit.Spares])).trans chain

theorem Sound.truncate (sound : l.Sound) (start : Nat) : (l.edit (.truncate start)).Sound where
  ordered := sound.ordered.truncate start
  chains id below := by
    have below : id < (l.store.truncate start).rows.size := below
    rw [RowStore.size_truncate, lt_min_iff] at below
    obtain ⟨rows, listed, chain⟩ := sound.chains id below.2
    refine ⟨rows, listed, ?_⟩
    exact (sound.chain?_after below.2 [.truncate start] (by simpa [Edit.Spares] using below.1)).trans chain

theorem Sound.edit (sound : l.Sound) (live : e.Live l) : (l.edit e).Sound := by
  cases e with
  | push row parent => exact sound.push live row
  | truncate start => exact sound.truncate start
  | clear => exact sound_of_empty l.notes

theorem Sound.after (sound : l.Sound) (live : l.Permits Edit.Live edits) : (l.after edits).Sound := by
  induction edits generalizing l with
  | nil => exact sound
  | cons e rest ih => exact ih (sound.edit live.1) live.2

theorem Sound.chain?_pushed (sound : l.Sound) {parent : Option Nat} (held : ∀ id ∈ parent, id < l.store.rows.size)
    (row : BranchRow α) (spared : ∀ e ∈ edits, e.Spares l.store.rows.size) :
    (l.after (.push row parent :: edits)).store.chain? (some l.store.rows.size) =
      (l.store.chain? parent).map (· ++ [row]) := by
  have inside : l.store.rows.size < (l.store.push row parent).1.rows.size := by
    rw [RowStore.size_push]
    exact Nat.lt_succ_self _
  exact ((sound.push held row).chain?_after inside edits spared).trans (sound.ordered.chain?_push held row)

/-- Of two rows below one parent neither is in the chain of the other, nor is what is pushed later. -/
theorem Sound.siblings (sound : l.Sound) {parent : Option Nat} (held : ∀ id ∈ parent, id < l.store.rows.size)
    (ceil floor : BranchRow α) (spared : ∀ e ∈ edits, e.Spares (l.store.rows.size + 1)) :
    (l.after (.push ceil parent :: .push floor parent :: edits)).store.chain? (some l.store.rows.size) =
        (l.store.chain? parent).map (· ++ [ceil]) ∧
      (l.after (.push ceil parent :: .push floor parent :: edits)).store.chain? (some (l.store.rows.size + 1)) =
        (l.store.chain? parent).map (· ++ [floor]) := by
  have size : (l.edit (.push ceil parent)).store.rows.size = l.store.rows.size + 1 := RowStore.size_push ..
  constructor
  · apply sound.chain?_pushed held ceil
    rw [List.forall_mem_cons]
    exact ⟨trivial, fun e member => (spared e member).mono (Nat.le_succ _)⟩
  · have held' : ∀ id ∈ parent, id < (l.edit (.push ceil parent)).store.rows.size :=
      fun id member => size ▸ Nat.lt_succ_of_lt (held id member)
    have pushed := (sound.push held ceil).chain?_pushed held' floor (size ▸ spared)
    rw [size] at pushed
    refine pushed.trans (congrArg _ ?_)
    cases parent with
    | none => rw [RowStore.chain?, RowStore.chain?, RowStore.walk_none, RowStore.walk_none]
    | some id => exact sound.chain?_after (held id rfl) [.push ceil (some id)] (by simp [Edit.Spares])

end Ledger

/-- In every sequence of operations that puts rows below rows that are held: the chain of a row that is held ends and
is what was noted when the row was pushed; it stays so until the row is dropped, so that of two rows below one
parent neither gets into the chain of the other; and the id of a dropped row is the next to be handed out. -/
theorem chains_as_noted (edits : List (Edit α)) (live : ({} : Ledger α).Permits Edit.Live edits) :
    let l := ({} : Ledger α).after edits
    (∀ id < l.store.rows.size, ∃ rows, l.notes.lookup id = some rows ∧ l.store.chain? (some id) = some rows) ∧
    (∀ id < l.store.rows.size, ∀ later : List (Edit α), (∀ e ∈ later, e.Spares id) →
      (l.after later).store.chain? (some id) = l.store.chain? (some id)) ∧
    (∀ parent, (∀ id ∈ parent, id < l.store.rows.size) → ∃ rows, l.store.chain? parent = some rows ∧
      ∀ (ceil floor : BranchRow α) (later : List (Edit α)), (∀ e ∈ later, e.Spares (l.store.rows.size + 1)) →
        let grown := (l.after (.push ceil parent :: .push floor parent :: later)).store
        grown.chain? (some l.store.rows.size) = some (rows ++ [ceil]) ∧
          grown.chain? (some (l.store.rows.size + 1)) = some (rows ++ [floor])) ∧
    ∀ start < l.store.rows.size, ∀ row parent, ((l.store.truncate start).push row parent).2 = start := by
  intro l
  have sound : l.Sound := (Ledger.sound_of_empty []).after live
  refine ⟨sound.chains, fun id held later spared => sound.chain?_after held later spared, ?_, ?_⟩
  · intro parent held
    have chain := sound.chain_noted held
    refine ⟨l.noted parent, chain, fun ceil floor later spared => ?_⟩
    obtain ⟨first, second⟩ := sound.siblings held ceil floor spared
    rw [chain] at first second
    exact ⟨first, second⟩
  · intro start held row parent
    show (l.store.truncate start).rows.size = start
    rw [RowStore.size_truncate, min_eq_left held.le]

/-- A row with two rows below it, which are dropped; a third takes the id of the first of them. -/
def regrown : List (Edit ℚ) :=
  [.push (.split .floor 0 3.5) none, .push (.split .ceil 1 0.5) (some 0), .push (.split .floor 1 0.5) (some 0),
    .truncate 1, .push (.split .floor 2 0.5) (some 0)]

theorem live_regrown : ({} : Ledger ℚ).Permits Edit.Live regrown := by
  simp [regrown, Ledger.Permits, Edit.Live, Ledger.edit, RowStore.push, RowStore.truncate, RowStore.empty]

/-- The id of a row that was dropped now has the chain of the row that replaced it, and a row below it adds nothing. -/
theorem chains_as_noted_regrown :
    ({} : Ledger ℚ).Permits Edit.Live regrown ∧
      (({} : Ledger ℚ).after regrown).notes.map Prod.fst = [1, 2, 1, 0] ∧
      (({} : Ledger ℚ).after regrown).store.chain? (some 1) = some [.split .floor 0 3.5, .split .floor 2 0.5] ∧
      ((({} : Ledger ℚ).after regrown).after [.push (.split .ceil 3 0.5) (some 1), .truncate 2]).store.chain? (some 1) =
        some [.split .floor 0 3.5, .split .floor 2 0.5] ∧
      (((({} : Ledger ℚ).after regrown).store.truncate 1).push (.split .ceil 0 0.5) none).2 = 1 := by
  have size : (({} : Ledger ℚ).after regrown).store.rows.size = 2 := by decide +kernel
  have note : (({} : Ledger ℚ).after regrown).notes.lookup 1 = some [.split .floor 0 3.5, .split .floor 2 0.5] := by
    decide +kernel
  obtain ⟨chains, stays, -, next⟩ := chains_as_noted regrown live_regrown
  rw [size] at chains stays next
  obtain ⟨rows, listed, chain⟩ := chains 1 (by decide)
  cases note.symm.trans listed
  refine ⟨live_regrown, by decide +kernel, chain, ?_, next 1 (by decide) _ _⟩
  rw [stays 1 (by decide) _ (by simp [Edit.Spares])]
  exact chain

/-! ### Cycles -/

/-- In every sequence of operations that puts rows below rows that are held, links never come back to a row; from any
id, be its row still held or not, they end after as many rows as there are at most. -/
theorem links_never_return (edits : List (Edit α)) (live : ({} : Ledger α).Permits Edit.Live edits) :
    let s := (({} : Ledger α).after edits).store
    (∀ i, ¬Relation.TransGen s.Links i i) ∧ ∀ tip, ∃ rows, s.chain? tip = some rows ∧ rows.length ≤ s.rows.size := by
  intro s
  have ordered : s.Ordered := ((Ledger.sound_of_empty []).after live).ordered
  refine ⟨fun i cycle => lt_irrefl i (ordered.lt_of_transGen cycle), fun tip => ?_⟩
  obtain ⟨rows, few, walked⟩ := ordered.chain tip
  exact ⟨rows, walked _ (le_refl _), few⟩

/-- After `regrown`, the id of the row that was not replaced leads nowhere. -/
theorem links_never_return_regrown :
    ({} : Ledger ℚ).Permits Edit.Live regrown ∧
      (∀ i, ¬Relation.TransGen (({} : Ledger ℚ).after regrown).store.Links i i) ∧
      (({} : Ledger ℚ).after regrown).store.chain? (some 2) = some [] := by
  obtain ⟨acyclic, -⟩ := links_never_return regrown live_regrown
  exact ⟨live_regrown, acyclic, by decide +kernel⟩

/-- A row below the id of one that was dropped, whose id it takes. -/
def belowStale : List (Edit ℚ) :=
  [.push (.split .ceil 0 0.5) none, .clear, .push (.split .floor 0 0.5) (some 0)]

/-- Every id of `belowStale` was handed out before it is used, but the row at the end is linked to itself: there is no
number of links after which its chain ends. -/
theorem stale_parent_cycles :
    ({} : Ledger ℚ).Permits Edit.Known belowStale ∧
      (({} : Ledger ℚ).after belowStale).notes.map Prod.fst = [0, 0] ∧
      Relation.TransGen (({} : Ledger ℚ).after belowStale).store.Links 0 0 ∧
      (({} : Ledger ℚ).after belowStale).store.chain? (some 0) = none ∧
      ∀ fuel, (({} : Ledger ℚ).after belowStale).store.walk fuel (some 0) [] = none := by
  have cycle : Relation.TransGen (({} : Ledger ℚ).after belowStale).store.Links 0 0 :=
    .single ⟨⟨.split .floor 0 0.5, some 0⟩, rfl, rfl⟩
  refine ⟨?_, rfl, cycle, RowStore.walk_of_cycle cycle _ _, fun fuel => RowStore.walk_of_cycle cycle fuel _⟩
  simp [belowStale, Ledger.Permits, Edit.Known, Ledger.edit, RowStore.push, RowStore.empty]

end BranchBound.Search
