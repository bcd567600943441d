import Mathlib.Init

/-!
# First-in, first-out channels

A channel holds the messages that were sent and not yet received and knows which of its ends are still there. Sending fails when
the receiver is gone; receiving reports a lost sender only when nothing is left to receive. `Takes` says of a way to receive that
what it returns comes off the front, which is all that the order of a channel's messages rests on.
-/

namespace Fifo

variable {μ : Type}

/-- A channel: the messages on their way, oldest first, and whether its ends are there. -/
structure Channel (μ : Type) where
  queue : List μ
  sender : Bool
  receiver : Bool
  deriving DecidableEq

/-- What receiving gives. -/
inductive Received (μ : Type) where
  | message (m : μ)
  | empty
  | disconnected
  deriving DecidableEq

/-- The message that was received, if any. -/
def Received.taken : Received μ → List μ
  | message m => [m]
  | empty => []
  | disconnected => []

namespace Channel

def new : Channel μ := { queue := [], sender := true, receiver := true }

/-- Send a message; nothing when the receiver is gone. -/
def send (c : Channel μ) (m : μ) : Option (Channel μ) :=
  if c.receiver then some { c with queue := c.queue ++ [m] } else none

/-- Receive without waiting. -/
def tryRecv (c : Channel μ) : Received μ × Channel μ :=
  match c.queue with
  | m :: queue => (.message m, { c with queue })
  | [] => (if c.sender then .empty else .disconnected, c)

/-- Give up waiting. -/
def timeout (c : Channel μ) : Received μ × Channel μ := (.empty, c)

def dropSender (c : Channel μ) : Channel μ := { c with sender := false }

/-- The messages on their way are lost with the receiver. -/
def dropReceiver (c : Channel μ) : Channel μ := { c with queue := [], receiver := false }

/-- A way to receive takes what it returns off the front, and leaves the receiver. -/
structure Takes (recv : Channel μ → Received μ × Channel μ) : Prop where
  queue : ∀ c, (recv c).1.taken ++ (recv c).2.queue = c.queue
  receiver : ∀ c, (recv c).2.receiver = c.receiver

theorem takes_tryRecv : Takes (tryRecv (μ := μ)) := by
  refine ⟨fun c => ?_, fun c => ?_⟩
  · obtain ⟨queue, sender, receiver⟩ := c
    cases queue with
    | nil => cases sender <;> rfl
    | cons m queue => rfl
  · unfold tryRecv
    split <;> rfl

theorem takes_timeout : Takes (timeout (μ := μ)) := ⟨fun _ => rfl, fun _ => rfl⟩

/-- A message that was sent is the last one on its way; the ends are as before. -/
theorem send_eq_some {c c' : Channel μ} {m : μ} :
    c.send m = some c' ↔ c.receiver = true ∧ c' = { c with queue := c.queue ++ [m] } := by
  unfold send
  split
  · rename_i h
    simp [h, eq_comm]
  · rename_i h
    simp [h]

end Channel

end Fifo
