import BranchBound.Proofs.LoopHeads
import BranchBound.Proofs.Points

/-!
# Consistency of the search

A solve fails only over its input or over a reply of its oracle: no fault of the search itself is ever met
(`solve_stays_consistent`). The replies are those that the recursion gets, noted one by one (`Noted`); at the
heads of the loop the nodes, the waiting list and the next id agree (`Head.WellFormed`).
-/

namespace BranchBound

/-- A call of an oracle with its reply, which may be an error. -/
structure Exchange (α : Type) where
  system : Integer.System α
  reply : Except (Error α) (Relaxation α)

/-- The oracle with its exchanges noted, latest first. -/
def Oracle.noted {σ α : Type} (oracle : Oracle σ α) : Oracle (σ × List (Exchange α)) α :=
  fun (state, exchanges) system =>
    let reply := oracle state system
    { result := reply.result
      state := (reply.state, ⟨system, reply.result⟩ :: exchanges)
      log := reply.log }

/-- An exchange of a search over a program: the branch rows bound variables of the program, and the reply is
one of the oracle's. -/
structure Exchange.Proper {σ α : Type} (x : Exchange α) (p : Integer.Program α) (oracle : Oracle σ α) : Prop where
  program : x.system.program = p
  inside : ∀ row ∈ x.system.branches, row.var < p.vars
  replied : ∃ state, x.reply = (oracle state x.system).result

/-- An error that only a slip of the search itself would bring. -/
def Error.isFault {α : Type} : Error α → Bool
  | .internal _ => true
  | .outOfRange _ => true
  | _ => false

namespace Search

open Integer (BranchRow)
open Recursion (Trail Explored look)

variable {σ α : Type}

/-- A search over `vars` variables stops at this reply with error `e`. -/
inductive Refused (vars : Nat) : Except (Error α) (Relaxation α) → Error α → Prop
  | error (e : Error α) : Refused vars (.error e) e
  | wrongLength {objective : α} {x : List α} (wrong : x.length ≠ vars) :
    Refused vars (.ok (.optimal objective x)) (.wrongLength x.length vars)

/-- The node list, the waiting list and the next id of a head agree, and the root is resolved once,
when nothing waits. -/
structure Head.WellFormed (vars : Nat) (head : Head σ α) : Prop where
  nextId : head.frame.controller.factory.nextId = head.frame.controller.nodes.size
  nodes : ∀ (i : Nat) (n : Node α), head.frame.controller.nodes[i]? = some n → n.Held vars head.frame.controller.store i
  waiting : ∀ id ∈ head.frame.controller.waiting, id < head.frame.controller.nodes.size
  roots : head.roots.length = if head.frame.controller.waiting = [] then 1 else 0

/-! ### Exchanges of the recursion -/

def failure? {β : Type} : Except (Error α) β → Option (Error α)
  | .error e => some e
  | .ok _ => none

/-- The exchanges between two trails are proper, and one of them is refused exactly if the search fails there. -/
def Noted (p : Integer.Program α) (oracle : Oracle σ α) (t t' : Trail (σ × List (Exchange α)) α)
    (failure : Option (Error α)) : Prop :=
  ∃ exchanges, t'.oracle.2 = exchanges ++ t.oracle.2 ∧ (∀ x ∈ exchanges, x.Proper p oracle) ∧
    ∀ e, failure = some e ↔ ∃ x ∈ exchanges, Refused p.vars x.reply e

section Noted
variable {p : Integer.Program α} {oracle : Oracle σ α} {t t₁ t' : Trail (σ × List (Exchange α)) α}
  {failure : Option (Error α)}

theorem Noted.trans (first : Noted p oracle t t₁ none) (next : Noted p oracle t₁ t' failure) :
    Noted p oracle t t' failure := by
  obtain ⟨early, read, proper, fine⟩ := first
  obtain ⟨late, read', proper', refused⟩ := next
  refine ⟨late ++ early, by rw [read', read, List.append_assoc], ?_, ?_⟩
  · intro x member
    rcases List.mem_append.mp member with new | old
    · exact proper' x new
    · exact proper x old
  · intro e
    rw [refused]
    constructor
    · rintro ⟨x, member, stops⟩
      exact ⟨x, List.mem_append_left _ member, stops⟩
    · rintro ⟨x, member, stops⟩
      rcases List.mem_append.mp member with new | old
      · exact ⟨x, new, stops⟩
      · cases (fine e).mpr ⟨x, old, stops⟩

variable [Scalar α] {settings : Integer.Settings α} {rows : List (BranchRow α)} {depth : Nat}

omit [Scalar α] in
theorem noted_of_ask (inside : ∀ row ∈ rows, row.var < p.vars) {reply : Except (Error α) (Relaxation α)}
    (replied : (oracle.noted t.oracle ⟨p, rows⟩).result = reply)
    (notes : t'.oracle.2 = (t.ask oracle.noted ⟨p, rows⟩).oracle.2)
    (refused : ∀ e, failure = some e ↔ Refused p.vars reply e) : Noted p oracle t t' failure := by
  subst replied
  refine ⟨[⟨⟨p, rows⟩, (oracle t.oracle.1 ⟨p, rows⟩).result⟩], notes, ?_, ?_⟩
  · intro x member
    obtain rfl := List.mem_singleton.mp member
    exact ⟨rfl, inside, t.oracle.1, rfl⟩
  · intro e
    rw [refused]
    simp only [List.mem_singleton, exists_eq_left]
    rfl

omit [Scalar α] in
theorem not_refused {vars : Nat} {objective : α} {x : List α} {e : Error α} (length : x.length = vars) :
    ¬Refused vars (.ok (.optimal objective x)) e := by
  intro refused
  cases refused with
  | wrongLength wrong => exact wrong length

theorem noted_of_look (inside : ∀ row ∈ rows, row.var < p.vars)
    {verdict : Except (Error α) (Recursion.Verdict α)}
    (looked : look p oracle.noted settings rows depth t = (verdict, t')) : Noted p oracle t t' (failure? verdict) := by
  cases Recursion.looked_of_look looked with
  | spent _ => exact ⟨[], rfl, by simp, by simp [failure?]⟩
  | refused _ replied =>
    refine noted_of_ask inside replied rfl fun e => ⟨?_, ?_⟩
    · rintro ⟨⟩
      exact .error _
    · rintro ⟨⟩
      rfl
  | wrongLength _ replied wrong =>
    refine noted_of_ask inside replied rfl fun e => ⟨?_, ?_⟩
    · rintro ⟨⟩
      exact .wrongLength wrong
    · rintro ⟨⟩
      rfl
  | limited _ replied => exact noted_of_ask inside replied rfl fun e => ⟨nofun, nofun⟩
  | infeasible _ replied => exact noted_of_ask inside replied rfl fun e => ⟨nofun, nofun⟩
  | unbounded _ replied => exact noted_of_ask inside replied rfl fun e => ⟨nofun, nofun⟩
  | pruned _ replied length _ =>
    exact noted_of_ask inside replied rfl fun e => ⟨nofun, fun refused => absurd refused (not_refused length)⟩
  | @integral objective x _ replied length _ _ =>
    have notes := congrArg Prod.snd (Recursion.offer_keeps (t.answered oracle.noted ⟨p, rows⟩) objective x).1
    exact noted_of_ask inside replied notes fun e => ⟨nofun, fun refused => absurd refused (not_refused length)⟩
  | split _ replied length _ _ =>
    exact noted_of_ask inside replied rfl fun e => ⟨nofun, fun refused => absurd refused (not_refused length)⟩

theorem inside_split {var : Nat} {value : α} (inside : ∀ row ∈ rows, row.var < p.vars)
    (looked : look p oracle.noted settings rows depth t = (.ok (.split var value), t')) (side : Integer.Side) :
    ∀ row ∈ rows ++ [.split side var value], row.var < p.vars := by
  intro row member
  rw [List.mem_append, List.mem_singleton] at member
  rcases member with old | rfl
  · exact inside row old
  · exact Recursion.inside_of_split looked

theorem noted_of_explored {result : Except (Error α) Outcome}
    (explored : Explored p oracle.noted settings rows depth t result t')
    (inside : ∀ row ∈ rows, row.var < p.vars) : Noted p oracle t t' (failure? result) := by
  induction explored with
  | failed looked => exact noted_of_look inside looked
  | closed looked => exact noted_of_look inside looked
  | ceilFailed looked _ ceil =>
    have split := noted_of_look inside looked
    exact split.trans (ceil (inside_split inside looked .ceil))
  | floorFailed looked _ _ ceil floor =>
    have split := noted_of_look inside looked
    exact split.trans ((ceil (inside_split inside looked .ceil)).trans (floor (inside_split inside looked .floor)))
  | combined looked _ _ ceil floor =>
    have split := noted_of_look inside looked
    exact split.trans ((ceil (inside_split inside looked .ceil)).trans (floor (inside_split inside looked .floor)))

end Noted

/-! ### Exchanges of a solve -/

section Solve
variable [Scalar α]

def Controller.exchanges (c : Controller α) (p : Integer.Program α) (oracle : Oracle σ α) (state : σ) :
    List (Exchange α) :=
  (c.solve p oracle.noted (state, [])).oracle.2

variable {c : Controller α} {p : Integer.Program α} {oracle : Oracle σ α} {state : σ}

theorem failure_recursion (p : Integer.Program α) (oracle : Oracle σ α) (settings : Integer.Settings α) (state : σ) :
    failure? (Recursion.solve p oracle settings state).1 =
      failure? (Recursion.explore p oracle settings [] 0 (Recursion.start p state)).1 := by
  unfold Recursion.solve
  rcases Recursion.explore p oracle settings [] 0 (Recursion.start p state) with ⟨_ | _, _⟩ <;> rfl

theorem exchanges_of_valid (valid : c.settings.isValid = true) (sound : p.fault? = none) :
    (∀ x ∈ c.exchanges p oracle state, x.Proper p oracle) ∧
      ∀ e, (c.solve p oracle state).result = .error e ↔
        ∃ x ∈ c.exchanges p oracle state, Refused p.vars x.reply e := by
  have taps : Recursion.Taps Prod.fst oracle.noted oracle := fun _ _ => ⟨rfl, rfl⟩
  have erased : Recursion.solve p oracle c.settings state = _ :=
    Recursion.solve_erase taps p c.settings (state, [])
  obtain ⟨_, ran⟩ := gives_search c p oracle state
  obtain ⟨_, again⟩ := gives_search c p oracle.noted (state, [])
  have result := (solve_of_gives valid sound ran).1
  have notes := (solve_of_gives valid sound again).2.2
  obtain ⟨exchanges, read, proper, refused⟩ := noted_of_explored
    (Recursion.explored_explore p oracle.noted c.settings [] 0 (Recursion.start p (state, []))) (by simp)
  rw [← Recursion.trail_solve, ← notes] at read
  rw [← failure_recursion] at refused
  have same : c.exchanges p oracle state = exchanges := read.trans (List.append_nil _)
  rw [same, result, erased]
  refine ⟨proper, fun e => ?_⟩
  rw [← refused e]
  cases (Recursion.solve p oracle.noted c.settings (state, [])).1 <;> simp [failure?]

/-- A solve that does not pass its checks asks nothing. -/
theorem exchanges_of_invalid (invalid : c.settings.isValid = false ∨ p.fault? ≠ none) :
    c.exchanges p oracle state = [] := by
  unfold Controller.exchanges Controller.solve
  cases valid : c.settings.isValid with
  | false => rfl
  | true =>
    cases fault : p.fault? with
    | some _ => rfl
    | none => simp [valid, fault] at invalid

theorem proper_of_mem_exchanges {x : Exchange α} (member : x ∈ c.exchanges p oracle state) : x.Proper p oracle := by
  by_cases checked : c.settings.isValid = true ∧ p.fault? = none
  · exact (exchanges_of_valid checked.1 checked.2).1 x member
  · rw [exchanges_of_invalid (by grind)] at member
    cases member

/-- A solve fails over its settings, its program or a refused reply, and over nothing else. -/
theorem solve_error_iff (e : Error α) :
    (c.solve p oracle state).result = .error e ↔
      c.settings.isValid = false ∧ e = .invalidTolerance c.settings.intTol ∨
      (c.settings.isValid = true ∧ ∃ fault, p.fault? = some fault ∧ e = .invalidProgram fault) ∨
      ∃ x ∈ c.exchanges p oracle state, Refused p.vars x.reply e := by
  cases valid : c.settings.isValid with
  | false =>
    have stopped : (c.solve p oracle state).result = .error (.invalidTolerance c.settings.intTol) := by
      unfold Controller.solve
      rw [valid]
      rfl
    rw [stopped, exchanges_of_invalid (Or.inl valid)]
    simp [eq_comm]
  | true =>
    cases checked : p.fault? with
    | some fault =>
      have stopped : (c.solve p oracle state).result = .error (.invalidProgram fault) := by
        unfold Controller.solve
        rw [valid, checked]
        rfl
      rw [stopped, exchanges_of_invalid (Or.inr (by simp [checked]))]
      simp [eq_comm]
    | none =>
      rw [(exchanges_of_valid valid checked).2 e]
      simp

theorem reply_of_fault {e : Error α} (fault : e.isFault = true) (failed : (c.solve p oracle state).result = .error e) :
    ∃ x ∈ c.exchanges p oracle state, x.reply = .error e := by
  rcases (solve_error_iff e).mp failed with ⟨-, rfl⟩ | ⟨-, _, -, rfl⟩ | ⟨x, member, refused⟩
  · cases fault
  · cases fault
  · refine ⟨x, member, ?_⟩
    generalize x.reply = reply at refused
    cases refused with
    | error => rfl
    | wrongLength _ => cases fault

theorem no_fault_of_simplex {linear : Linear.Settings α} {tally : Oracle.Tally} {e : Error α}
    (fault : e.isFault = true) : (c.solve p (Oracle.simplex linear) tally).result ≠ .error e := by
  intro failed
  obtain ⟨x, member, replied⟩ := reply_of_fault fault failed
  have proper := proper_of_mem_exchanges member
  obtain ⟨tally', reply⟩ := proper.replied
  have inside : ∀ row ∈ x.system.branches, row.var < x.system.program.vars := by
    rw [proper.program]
    exact proper.inside
  obtain ⟨matrix, dense⟩ := Integer.System.exists_dense inside
  rw [replied] at reply
  unfold Oracle.simplex at reply
  rw [dense] at reply
  dsimp only at reply
  split at reply
  · cases reply
    cases fault
  · cases reply

end Solve

/-! ### Heads of a solve -/

section Heads
variable [Scalar α] {c : Controller α}

theorem wellFormed_on {vars : Nat} {path : Path α} {n : Node α} (standing : Standing vars path n) (t : Trail σ α)
    (log : Array (Event α)) (leaves : List (Integer.System α)) : (Head.on c path n t log leaves).WellFormed vars where
  nextId := by
    show 2 * path.depth + 1 = (path.nodes n).toArray.size
    rw [List.size_toArray, path.length_nodes]
  nodes i m read := by
    have read : (path.nodes n).toArray[i]? = some m := read
    rw [List.getElem?_toArray] at read
    have held := Path.nodes_held standing.sound standing.held standing.placed [] read
    rw [List.append_nil] at held
    exact held
  waiting id member := by
    show id < (path.nodes n).toArray.size
    rw [List.size_toArray, path.length_nodes]
    rcases List.mem_cons.mp member with rfl | later
    · exact path.id_lt
    · exact path.pending_lt id later
  roots := rfl

theorem wellFormed_finished {vars : Nat} {n : Node α} (placed : n.At .root) (t : Trail σ α) (log : Array (Event α))
    (root : Outcome) (leaves : List (Integer.System α)) : (Head.finished c n t log root leaves).WellFormed vars where
  nextId := rfl
  nodes i m read := by
    have read : ([n].toArray)[i]? = some m := read
    rw [List.getElem?_toArray] at read
    exact Path.nodes_held (show (Path.root : Path α).Sound from trivial) trivial placed [] read
  waiting id member := nomatch member
  roots := rfl

end Heads

/-- A solve returns an error exactly if its settings or its program are not valid or a reply of its oracle is
refused. A fault of the search comes from the oracle alone, never from the simplex oracle: at every head of
the loop nodes, waiting list and next id agree, and every branch row bounds a variable of the program. -/
theorem solve_stays_consistent [Scalar α] (c : Controller α) (p : Integer.Program α) (oracle : Oracle σ α)
    (state : σ) :
    (∀ e, (c.solve p oracle state).result = .error e ↔
      c.settings.isValid = false ∧ e = .invalidTolerance c.settings.intTol ∨
      (c.settings.isValid = true ∧ ∃ fault, p.fault? = some fault ∧ e = .invalidProgram fault) ∨
      ∃ x ∈ c.exchanges p oracle state, Refused p.vars x.reply e) ∧
    (∀ x ∈ c.exchanges p oracle state, x.Proper p oracle) ∧
    (∀ e : Error α, e.isFault = true → (c.solve p oracle state).result = .error e →
      ∃ x ∈ c.exchanges p oracle state, x.reply = .error e) ∧
    (∀ (linear : Linear.Settings α) (tally : Oracle.Tally) (e : Error α), e.isFault = true →
      (c.solve p (Oracle.simplex linear) tally).result ≠ .error e) ∧
    ∀ head, Reached c p oracle state head → head.WellFormed p.vars := by
  refine ⟨solve_error_iff, fun x member => proper_of_mem_exchanges member, fun e => reply_of_fault,
    fun linear tally e => no_fault_of_simplex, ?_⟩
  intro head reached
  cases reached.atHead with
  | on standing => exact wellFormed_on standing _ _ _
  | finished placed => exact wellFormed_finished placed _ _ _ _

/-- The root is split and the oracle gives up on its ceil side. Before that call both sides wait, with the root as the
third node. -/
theorem solve_stays_consistent_second_call :
    ∃ (c : Controller ℚ) (p : Integer.Program ℚ) (state : List (Relaxation ℚ) × Unit),
      c = Controller.ofSettings ⟨5, 0, ⟨10, 0, 0⟩, false, 0⟩ ∧ p = ⟨[[2]], [3], [-1]⟩ ∧
      state = ([.optimal (-3 / 2) [3 / 2]], ()) ∧ c.settings.isValid = true ∧
      (∃ x ∈ c.exchanges p (Oracle.scripted (Oracle.failing "lost")) state,
        Refused p.vars x.reply (.oracleFailed "lost")) ∧
      ∃ head, Reached c p (Oracle.scripted (Oracle.failing "lost")) state head ∧
        head.frame.controller.waiting = [1, 2] ∧ head.frame.controller.nodes.size = 3 ∧ head.WellFormed p.vars := by
  obtain ⟨c, made⟩ : ∃ c : Controller ℚ, c = Controller.ofSettings ⟨5, 0, ⟨10, 0, 0⟩, false, 0⟩ := ⟨_, rfl⟩
  obtain ⟨p, posed⟩ : ∃ p : Integer.Program ℚ, p = ⟨[[2]], [3], [-1]⟩ := ⟨_, rfl⟩
  obtain ⟨state, scripted⟩ : ∃ state : List (Relaxation ℚ) × Unit, state = ([.optimal (-3 / 2) [3 / 2]], ()) := ⟨_, rfl⟩
  obtain ⟨errors, -, -, -, heads⟩ := solve_stays_consistent c p (Oracle.scripted (Oracle.failing "lost")) state
  have valid : c.settings.isValid = true := by
    rw [made]
    decide +kernel
  have sound : p.fault? = none := by
    rw [posed]
    decide +kernel
  have failed : (c.solve p (Oracle.scripted (Oracle.failing "lost")) state).result = .error (.oracleFailed "lost") := by
    rw [made, posed, scripted]
    decide +kernel
  have split : (c.frameAfter? p (Oracle.scripted (Oracle.failing "lost")) state 1).map (fun frame =>
      (frame.controller.waiting, frame.controller.nodes.size)) = some ([1, 2], 3) := by
    rw [made, posed, scripted]
    decide +kernel
  refine ⟨c, p, state, made, posed, scripted, valid, ?_, ?_⟩
  · rcases (errors _).mp failed with ⟨invalid, -⟩ | ⟨-, fault, broken, -⟩ | refused
    · rw [valid] at invalid
      cases invalid
    · rw [sound] at broken
      cases broken
    · exact refused
  · obtain ⟨frame, ran, read⟩ := Option.map_eq_some_iff.mp split
    obtain ⟨head, reached, rfl⟩ := reached_of_frameAfter? ran
    obtain ⟨waits, three⟩ := Prod.mk.inj read
    exact ⟨head, reached, waits, three, heads head reached⟩

end Search

end BranchBound
