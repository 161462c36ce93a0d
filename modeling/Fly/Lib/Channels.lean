import Mathlib.Data.List.Basic
import Mathlib.Tactic.Ring

/-!
# Messages in flight on several connections

All messages that are on their way, in the order in which they were sent, each with the number of its
connection.  A connection hands its messages over in that order; nothing is said about the order between
two connections.

* `Channels.send`, `Channels.receive`, `Channels.drop` — send, take the oldest message of a connection,
  and lose a connection with everything on it;
* `Channels.receive_split` — **where the received message was**;
* `Channels.mem_receive`, `Channels.countP_receive` — what is left.
-/

namespace Fly.Lib

open List

/-- The messages in flight, oldest first. -/
abbrev Channels (α : Type*) := List (ℕ × α)

namespace Channels

variable {α : Type*} (ch : Channels α)

def send (conn : ℕ) (a : α) : Channels α := ch ++ [(conn, a)]

/-- The oldest message of the connection, and what is left in flight. -/
def receive (conn : ℕ) : Option (α × Channels α) :=
  (ch.find? fun x => x.1 == conn).map fun x => (x.2, ch.eraseP fun x => x.1 == conn)

/-- The connection is lost with everything on it. -/
def drop (conn : ℕ) : Channels α := ch.filter fun x => x.1 != conn

variable {ch} {rest : Channels α} {conn : ℕ} {a : α} {x : ℕ × α}

section

variable (h : receive ch conn = some (a, rest))
include h

theorem receive_split :
    ∃ front back, ch = front ++ (conn, a) :: back ∧ rest = front ++ back ∧ ∀ x ∈ front, x.1 ≠ conn := by
  obtain ⟨⟨conn', a'⟩, hfind, heq⟩ := Option.map_eq_some_iff.mp h
  cases heq
  obtain ⟨hconn, front, back, hch, hfront⟩ := find?_eq_some_iff_append.mp hfind
  have hconn' : conn' = conn := by simpa using hconn
  have hne : ∀ x ∈ front, ¬(x.1 == conn) = true := by
    intro x hx
    simpa using hfront x hx
  subst hconn'
  refine ⟨front, back, hch, ?_, fun x hx => by simpa using hne x hx⟩
  rw [hch, eraseP_append_right _ hne, eraseP_cons_of_pos (by simp)]

theorem mem_of_receive : (conn, a) ∈ ch := by
  obtain ⟨front, back, rfl, -⟩ := receive_split h
  simp

/-- What is left was there before. -/
theorem mem_receive (hx : x ∈ rest) : x ∈ ch := by
  obtain ⟨front, back, rfl, rfl, -⟩ := receive_split h
  rcases mem_append.mp hx with hfront | hback
  · exact mem_append_left _ hfront
  · exact mem_append_right _ (mem_cons_of_mem _ hback)

/-- What was there before is left, or it was received. -/
theorem mem_receive_or (hx : x ∈ ch) : x = (conn, a) ∨ x ∈ rest := by
  obtain ⟨front, back, rfl, rfl, -⟩ := receive_split h
  rcases mem_append.mp hx with hfront | hback
  · exact .inr (mem_append_left _ hfront)
  · rcases mem_cons.mp hback with heq | hback
    · exact .inl heq
    · exact .inr (mem_append_right _ hback)

theorem countP_receive (p : ℕ × α → Bool) : ch.countP p = rest.countP p + if p (conn, a) then 1 else 0 := by
  obtain ⟨front, back, rfl, rfl, -⟩ := receive_split h
  rw [countP_append, countP_append, countP_cons]
  ring

end

theorem mem_drop (hx : x ∈ drop ch conn) : x ∈ ch := mem_of_mem_filter hx

theorem countP_drop (ch : Channels α) (conn : ℕ) (p : ℕ × α → Bool) :
    (drop ch conn).countP p ≤ ch.countP p :=
  List.Sublist.countP_le filter_sublist

end Channels

end Fly.Lib
