import Mathlib.Data.List.Nodup
import TileArchive.Proofs.Reader.Log
import TileArchive.Proofs.Reader.Onward

/-!
# `TileArchive.Proofs.Reader.Turns`: one load of the metadata at a time

Queries that wait for the metadata hold tickets. `Turnstile.Accounts` says that a turnstile knows
which tickets are out: as long as the value is not made, one of them has the turn and the others
stand in line. Every operation keeps this, with one ticket more or one less.

The list of tickets is a parameter and comes from outside: it is read off the queries that wait
(`ticketsOf` in `Proofs/Reader/Calls.lean`). `known` compares it with turn and line up to order.
As long as there is no value this is all there is to know: nobody waits without being in line,
and nobody has the turn who is not there to use it. With a value the line is empty, and tickets
that are still out are collected one by one as their holders come to look (`collect`).

There is one lemma per operation of the turnstile. `enter` adds a ticket, `pass`, `leave` and
`collect` take the first of the list out, and `fulfil` does so for the ticket whose turn it is.
-/

set_option autoImplicit false

namespace TileArchive

namespace Turnstile

variable {α : Type} {t : Turnstile α} {tickets : List Nat} {n : Nat}

/-- The tickets that are out are those that a turnstile knows, and no ticket is out twice.
Nobody stands in line without somebody having the turn. Once there is a value nobody has the
turn, and the tickets that are still out are of callers who have not come back for it. -/
structure Accounts (t : Turnstile α) (tickets : List Nat) : Prop where
  distinct : tickets.Nodup
  issued : ∀ n ∈ tickets, n < t.nextTicket
  known : t.value = none → (t.turn.toList ++ t.line).Perm tickets
  closed : t.turn = none → t.line = []
  settled : t.value ≠ none → t.turn = none

namespace Accounts

/-- A new turnstile has given out no ticket. -/
theorem new : (Turnstile.new : Turnstile α).Accounts [] :=
  ⟨List.nodup_nil, nofun, fun _ => .nil, fun _ => rfl, fun _ => rfl⟩

/-- The order in which tickets are listed does not matter. -/
theorem perm {tickets' : List Nat} (accounts : t.Accounts tickets) (same : tickets.Perm tickets') :
    t.Accounts tickets' :=
  ⟨same.nodup_iff.mp accounts.distinct, fun n member => accounts.issued n (same.mem_iff.mpr member),
    fun no_value => (accounts.known no_value).trans same, accounts.closed, accounts.settled⟩

/-- Only tickets that are out have the turn. -/
theorem mem_of_turn (accounts : t.Accounts tickets) (turn_eq : t.turn = some n) : n ∈ tickets := by
  have no_value : t.value = none := by
    refine Classical.byContradiction fun value => ?_
    rw [accounts.settled value] at turn_eq
    cases turn_eq
  rw [← (accounts.known no_value).mem_iff, turn_eq]
  exact List.mem_cons_self

/-- Someone comes for the value and gets a ticket. Nobody loses the turn by it. The new one
has the turn if nobody had it, and otherwise stands at the end of the line. -/
theorem enter (accounts : t.Accounts tickets) (no_value : t.value = none) :
    t.enter.1.Accounts (t.enter.2 :: tickets) ∧ t.enter.1.value = none ∧
      ∀ m, t.turn = some m → t.enter.1.turn = some m := by
  have fresh : t.nextTicket ∉ tickets := fun member => Nat.lt_irrefl _ (accounts.issued _ member)
  have distinct : (t.nextTicket :: tickets).Nodup := List.nodup_cons.mpr ⟨fresh, accounts.distinct⟩
  have issued : ∀ n ∈ t.nextTicket :: tickets, n < t.nextTicket + 1 := by
    intro n member
    rcases List.mem_cons.mp member with rfl | member
    · exact Nat.lt_succ_self _
    · exact Nat.lt_succ_of_lt (accounts.issued n member)
  have known := accounts.known no_value
  -- Whoever comes first has the turn at once, and whoever comes later stands in line.
  cases turn_eq : t.turn with
  | none =>
      have line_eq := accounts.closed turn_eq
      have enter_eq : t.enter = ({ t with
          turn := some t.nextTicket, nextTicket := t.nextTicket + 1 }, t.nextTicket) := by
        simp only [Turnstile.enter, turn_eq]
      rw [turn_eq] at known
      rw [enter_eq]
      refine ⟨⟨distinct, issued, fun _ => known.cons _, ?_, fun value => absurd no_value value⟩,
        no_value, ?_⟩
      · intro no_turn
        cases no_turn
      · intro m turn
        cases turn
  | some m =>
      have enter_eq : t.enter = ({ t with
          line := t.line ++ [t.nextTicket], nextTicket := t.nextTicket + 1 }, t.nextTicket) := by
        simp only [Turnstile.enter, turn_eq]
      rw [enter_eq]
      refine ⟨⟨distinct, issued, fun _ => ?_, ?_, fun value => absurd no_value value⟩, no_value,
        fun _ same => turn_eq.trans same⟩
      · show (t.turn.toList ++ (t.line ++ [t.nextTicket])).Perm _
        rw [← List.append_assoc]
        exact List.perm_append_comm.trans (known.cons _)
      · intro no_turn
        cases turn_eq.symm.trans no_turn

/-- The one who has the turn goes without having made the value. The first in line has the
turn then, and nobody has it if nobody waits. -/
theorem pass (accounts : t.Accounts (n :: tickets)) (turn_eq : t.turn = some n) :
    t.pass.Accounts tickets := by
  have distinct := List.nodup_cons.mp accounts.distinct
  refine ⟨distinct.2, fun m member => accounts.issued m (List.mem_cons_of_mem n member), ?_, ?_, ?_⟩
  · intro no_value
    have known := accounts.known no_value
    rw [turn_eq] at known
    have rest : t.line.Perm tickets := known.cons_inv
    have line_eq : t.line.head?.toList ++ t.line.tail = t.line := by
      cases t.line <;> rfl
    show (t.line.head?.toList ++ t.line.tail).Perm tickets
    rwa [line_eq]
  · intro no_turn
    show t.line.tail = []
    rw [List.head?_eq_none_iff.mp no_turn, List.tail_nil]
  · intro value
    rw [accounts.settled value] at turn_eq
    cases turn_eq

/-- Someone makes the value and goes. -/
theorem fulfil (accounts : t.Accounts (n :: tickets)) (value : α) :
    (t.fulfil value).Accounts tickets :=
  ⟨(List.nodup_cons.mp accounts.distinct).2,
    fun m member => accounts.issued m (List.mem_cons_of_mem n member), nofun, fun _ => rfl,
    fun _ => rfl⟩

/-- A ticket is no longer out although the turnstile has it in line: once the value is made, it
does not matter. -/
theorem collect (accounts : t.Accounts (n :: tickets)) (value : t.value ≠ none) :
    t.Accounts tickets :=
  ⟨(List.nodup_cons.mp accounts.distinct).2,
    fun m member => accounts.issued m (List.mem_cons_of_mem n member),
    fun no_value => absurd no_value value, accounts.closed, accounts.settled⟩

/-- Someone gives up a ticket. Whether it had the turn or stood in the line, the others keep
their order. Once there is a value tickets mean nothing, and nothing is to be done. -/
theorem leave (accounts : t.Accounts (n :: tickets)) : (t.leave n).Accounts tickets := by
  unfold Turnstile.leave
  split
  · next turn_eq => exact accounts.pass turn_eq
  · next other =>
    obtain ⟨apart, distinct⟩ := List.nodup_cons.mp accounts.distinct
    refine ⟨distinct, fun m member => accounts.issued m (List.mem_cons_of_mem n member), ?_, ?_,
      accounts.settled⟩
    · intro no_value
      -- Both sides lose the ticket, which nobody else holds.
      have known := (accounts.known no_value).filter (· ≠ n)
      have turn_kept : t.turn.toList.filter (· ≠ n) = t.turn.toList := by
        refine List.filter_eq_self.mpr ?_
        intro m member
        refine decide_eq_true fun same => other ?_
        rw [← same]
        exact Option.mem_toList.mp member
      have tickets_kept : (n :: tickets).filter (· ≠ n) = tickets := by
        rw [List.filter_cons_of_neg (by simp)]
        refine List.filter_eq_self.mpr ?_
        intro m member
        exact decide_eq_true fun same => apart (same ▸ member)
      rwa [List.filter_append, turn_kept, tickets_kept] at known
    · intro no_turn
      show t.line.filter (· ≠ n) = []
      rw [accounts.closed no_turn]
      rfl

end Accounts

end Turnstile

end TileArchive
