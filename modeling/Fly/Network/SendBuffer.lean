import Fly.Lib.Bytes
import Fly.Lib.Run

/-!
# Sending on a connection (`tcp_connection_manager.cpp`: `send`, `drain_write_buffer`)

The senders of a connection are serialized by its mutex (`reactor.h`).  A sender looks under the lock of the
manager whether bytes are waiting in the buffer.  If so it puts its own behind them; otherwise it sends
without the lock, and puts what the socket has not taken into the buffer.  Meanwhile the poll thread drains
the buffer.

* `Outgoing`, `Act`, `step` — the connection, and the steps of the sender and of the poll thread;
* `Inv` — nothing is lost, doubled or overtaken; `sends_in_order` — after every run.
-/

namespace Fly.Network.SendBuffer

open Fly.Lib List

/-- Where the sender stands that holds the mutex of the connection: it has found the buffer empty, or the
socket has left it with a rest. -/
inductive Sender where
  | direct (data : Bytes)
  | rest (data : Bytes)
  deriving DecidableEq

structure Outgoing where
  sender : Option Sender := none
  /-- empty also if there is no entry -/
  writeBuffer : Bytes := []
  /-- `total_sent` of a drain, which holds the lock -/
  draining : Option ℕ := none
  /-- registered for write events -/
  evWrite : Bool := false
  /-- what the socket has taken -/
  socket : Bytes := []
  /-- the bytes of all sends -/
  accepted : Bytes := []

/-- The socket takes `sent` bytes, or would block (`none`). -/
inductive Act where
  | send (data : Bytes)
  | transportSend (sent : Option ℕ)
  | append
  | drainWriteBuffer
  | drainSend (sent : Option ℕ)

namespace Outgoing

variable (w : Outgoing)

/-- Behind the loop of a drain. -/
def finishDrain (totalSent : ℕ) : Outgoing :=
  { w with
    draining := none
    writeBuffer := w.writeBuffer.drop totalSent
    evWrite := if w.writeBuffer.drop totalSent = [] then false else w.evWrite }

/-- What is in the buffer and not yet with the socket. -/
def waiting : Bytes := w.writeBuffer.drop (w.draining.getD 0)

/-- What the sender has still to send or to append. -/
def inProgress : Bytes :=
  match w.sender with
  | some (.direct data) | some (.rest data) => data
  | none => []

end Outgoing

open Outgoing

def step (w : Outgoing) : Act → Option Outgoing
  | .send data =>
    if w.sender = none ∧ w.draining = none then
      let w := { w with accepted := w.accepted ++ data }
      some (if w.writeBuffer = [] then { w with sender := some (.direct data) }
        else { w with writeBuffer := w.writeBuffer ++ data, evWrite := true })
    else none
  | .transportSend sent =>
    match w.sender, sent with
    | some (.direct data), none => some { w with sender := some (.rest data) }
    | some (.direct data), some n =>
      if n ≤ data.length then
        some { w with
          socket := w.socket ++ data.take n
          sender := if n < data.length then some (.rest (data.drop n)) else none }
      else none
    | _, _ => none
  | .append =>
    match w.sender, w.draining with
    | some (.rest data), none =>
      some { w with writeBuffer := w.writeBuffer ++ data, evWrite := true, sender := none }
    | _, _ => none
  | .drainWriteBuffer =>
    if w.draining = none then
      some (if w.writeBuffer = [] then { w with evWrite := false } else { w with draining := some 0 })
    else none
  | .drainSend sent =>
    match w.draining, sent with
    | some totalSent, none | some totalSent, some 0 => some (w.finishDrain totalSent)
    | some totalSent, some n =>
      if n ≤ w.writeBuffer.length - totalSent then
        let w := { w with socket := w.socket ++ (w.writeBuffer.drop totalSent).take n }
        some (if totalSent + n < w.writeBuffer.length then { w with draining := some (totalSent + n) }
          else w.finishDrain (totalSent + n))
      else none
    | none, _ => none

/-- The bytes are in order; nothing is in the buffer while a sender is at work behind its look at it. -/
structure Inv (w : Outgoing) : Prop where
  order : w.socket ++ (w.waiting ++ w.inProgress) = w.accepted
  direct : w.sender ≠ none → w.writeBuffer = []
  registered : w.writeBuffer ≠ [] → w.evWrite = true

section Steps

variable {w w' : Outgoing} {a : Act} {acts : List Act}

section Drain

variable (h : Inv w) {k : ℕ} (hk : w.draining = some k)

include h hk

theorem Inv.finishDrain : Inv (w.finishDrain k) := by
  refine ⟨?_, fun hsender => ?_, fun hne => ?_⟩
  · have horder := h.order
    rw [waiting, hk] at horder
    exact horder
  · show w.writeBuffer.drop k = []
    rw [h.direct hsender, drop_nil]
  · refine (if_neg hne).trans (h.registered fun hnil => hne ?_)
    show w.writeBuffer.drop k = []
    rw [hnil, drop_nil]

/-- The socket takes more of the buffer. -/
theorem Inv.drained (n : ℕ) : Inv { w with
    socket := w.socket ++ (w.writeBuffer.drop k).take n, draining := some (k + n) } := by
  refine ⟨?_, h.direct, h.registered⟩
  have horder := h.order
  rw [waiting, hk] at horder
  show _ ++ take n _ ++ (w.writeBuffer.drop (k + n) ++ w.inProgress) = w.accepted
  rw [← drop_drop, append_assoc, ← append_assoc (take n _), take_append_drop]
  exact horder

end Drain

/-- **Every step keeps the bytes in order.** -/
theorem Inv.step (h : Inv w) (hstep : step w a = some w') : Inv w' := by
  have horder := h.order
  rw [waiting, inProgress] at horder
  cases a with
  | send data =>
    obtain ⟨⟨hidle, hfree⟩, hw'⟩ := Option.ite_none_right_eq_some.mp hstep
    simp only [hidle, hfree, Option.getD_none, drop_zero, append_nil] at horder
    cases hw'
    split
    · next hnil =>
      refine ⟨?_, fun _ => hnil, h.registered⟩
      rw [← horder]
      simp [waiting, inProgress, show w.writeBuffer = [] from hnil]
    · refine ⟨?_, fun hsender => absurd hidle hsender, fun _ => rfl⟩
      rw [← horder]
      simp [waiting, inProgress, hidle, hfree]
  | transportSend sent =>
    simp only [SendBuffer.step] at hstep
    split at hstep
    · next data hsender =>
      cases hstep
      refine ⟨?_, fun _ => h.direct (by simp [hsender]), h.registered⟩
      rw [hsender] at horder
      exact horder
    · next data n hsender =>
      obtain ⟨-, hw'⟩ := Option.ite_none_right_eq_some.mp hstep
      have hnil : w.writeBuffer = [] := h.direct (by simp [hsender])
      cases hw'
      refine ⟨?_, fun _ => hnil, h.registered⟩
      simp only [hsender, hnil, drop_nil, nil_append] at horder
      rw [← horder, waiting, inProgress, hnil, drop_nil, nil_append, append_assoc]
      split_ifs with hlt
      · exact congrArg _ (take_append_drop n data)
      · exact congrArg _ ((append_nil _).trans (take_of_length_le (not_lt.mp hlt)))
    · cases hstep
  | append =>
    simp only [SendBuffer.step] at hstep
    split at hstep
    · next data hsender hfree =>
      cases hstep
      refine ⟨?_, fun hnot => absurd rfl hnot, fun _ => rfl⟩
      rw [← horder]
      simp [waiting, inProgress, hsender, hfree]
    · cases hstep
  | drainWriteBuffer =>
    obtain ⟨hfree, hw'⟩ := Option.ite_none_right_eq_some.mp hstep
    cases hw'
    split
    · next hnil => exact ⟨h.order, h.direct, fun hne => absurd hnil hne⟩
    · rw [hfree] at horder
      exact ⟨horder, h.direct, h.registered⟩
  | drainSend sent =>
    simp only [SendBuffer.step] at hstep
    split at hstep
    · next hk =>
      cases hstep
      exact h.finishDrain hk
    · next hk =>
      cases hstep
      exact h.finishDrain hk
    · next hk =>
      obtain ⟨-, hw'⟩ := Option.ite_none_right_eq_some.mp hstep
      cases hw'
      split
      · exact h.drained hk _
      · exact (h.drained hk _).finishDrain rfl
    · cases hstep

/-- **Sends keep their order**, in every run: what the socket has taken, what waits in the buffer and what the
sender at work has still to send or to append are, in this order, the bytes of all sends; and as long as bytes
wait in the buffer the descriptor is registered for write events. -/
theorem sends_in_order (hrun : run step {} acts = some w) :
    w.socket ++ (w.waiting ++ w.inProgress) = w.accepted ∧ (w.writeBuffer ≠ [] → w.evWrite = true) := by
  have hinit : Inv {} := ⟨rfl, fun _ => rfl, fun hne => absurd rfl hne⟩
  have hinv := run_invariant (fun _ _ _ _ h hstep => h.step hstep) hinit hrun
  exact ⟨hinv.order, hinv.registered⟩

/-- A part is sent directly; the rest waits, with the next bytes behind it, and is drained in two rounds. -/
def partialActs : List Act :=
  [.send [1, 2, 3], .transportSend (some 1), .drainWriteBuffer, .append, .send [4], .drainWriteBuffer,
    .drainSend (some 1), .drainSend (some 1), .drainSend none]

theorem sends_in_order_partial : ∃ w, run step {} partialActs = some w ∧
    (w.socket = [1, 2, 3] ∧ w.writeBuffer = [4]) ∧ w.evWrite = true :=
  exists_and_of_decide (by decide) fun _ hrun hw =>
    (sends_in_order hrun).2 (by rw [hw.2]; exact cons_ne_nil 4 [])

end Steps

end Fly.Network.SendBuffer
