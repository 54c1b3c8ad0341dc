import AuroraOS.IpcQueues
import AuroraOS.MutexState

/-!
# What endpoints do to priorities

A receiver inherits the priority of a sender that waits for its reply, and has its priority
recalculated when such a wait ends. The operations of an endpoint are described here by what they do
to `Kernel.locks`: of all that mutexes depend on, they change priorities only.
-/

namespace AuroraOS

open Inheritance Function

variable {N : Nat}

namespace Kernel

/-- `x` waits for a reply of `r`. -/
def Owes (k : Kernel N) (r x : Fin N) : Prop :=
  (k.ipc x).state = .replyBlocked ∧ (k.ipc x).receiverId = r
  deriving Decidable

section Locks

variable (k : Kernel N) {r : Fin N}

@[simp] theorem locks_modifyIpc (t : Fin N) (f : IpcContext N → IpcContext N) :
    (k.modifyIpc t f).locks = k.locks := rfl

@[simp] theorem locks_setQueue (e : EndpointId) (side : Side) (next : Blocked N) (q : WaitQueue N) :
    (k.setQueue e side next q).locks = k.locks := rfl

@[simp] theorem locks_copyMessage (dst src : Option Buffer) (n : Nat) :
    (k.copyMessage dst src n).1.locks = k.locks := by
  unfold copyMessage
  split
  · split_ifs <;> rfl
  · rfl

@[simp] theorem locks_deliver (receiver sender : Fin N) (msg : Option Buffer) (len badge : Nat) :
    (k.deliver receiver sender msg len badge).locks = k.locks := by
  simp [deliver]

@[simp] theorem locks_refuse (t : Fin N) : (k.refuse t).locks = k.locks := by
  simp [refuse]

@[simp] theorem locks_parked (e : EndpointId) (side : Side) (t : Fin N) (timeout : Nat)
    (note : IpcContext N → IpcContext N) (next : Blocked N) (q : WaitQueue N) :
    (k.parked e side t timeout note next q).locks = k.locks := by
  simp [parked, beginWait]

@[simp] theorem locks_endWait (t : Fin N) (reason : IpcStatus) :
    (k.endWait t reason).locks = k.locks := by
  simp [endWait]

variable {k}

variable (hslots : k.locks.Slots)

include hslots

/-- The receiver becomes as urgent as the sender. -/
theorem locks_inherit (hr : (r : Nat) < k.locks.count) (x : Fin N) :
    (k.inherit r x).locks = { k.locks with
      priority := update k.priority r (max (k.priority r) (k.priority x)) } := by
  unfold inherit
  split_ifs with hgt
  · rw [k.locks_setTaskPriority hslots hr, max_eq_right hgt.le]
  · rw [max_eq_left (not_lt.mp hgt), update_eq_self]
    rfl

theorem locks_inherit_of {k₁ : Kernel N} (h₁ : k₁.locks = k.locks)
    (hr : (r : Nat) < k.locks.count) (x : Fin N) : (k₁.inherit r x).locks = { k.locks with
      priority := update k.priority r (max (k.priority r) (k.priority x)) } := by
  have hprio : k₁.priority = k.priority := congrArg Locks.priority h₁
  rw [locks_inherit (h₁ ▸ hslots) (h₁ ▸ hr), h₁, hprio]

theorem locks_recalculateReceiverPriority (hr : (r : Nat) < k.locks.count) :
    (k.recalculateReceiverPriority r).locks = { k.locks with
      priority := update k.priority r (k.receiverPriority r) } :=
  k.locks_setTaskPriority hslots hr _

/-- A call that finds a receiver: the receiver inherits, unless the sender does not wait. -/
theorem locks_callReceiver (hr : (r : Nat) < k.locks.count) (e : EndpointId) (x : Fin N)
    (msg : Option Buffer) (len timeout badge : Nat) :
    (k.callReceiver e x r msg len timeout badge).locks =
      if timeout = ipcNonblock then k.locks
      else { k.locks with
        priority := update k.priority r (max (k.priority r) (k.priority x)) } := by
  unfold callReceiver
  split_ifs
  · simp
  · rw [locks_setTaskState]
    exact locks_inherit_of hslots (by simp) hr x

theorem locks_receiveFrom (hr : (r : Nat) < k.locks.count) (x : Fin N) :
    (k.receiveFrom r x).locks = { k.locks with
      priority := update k.priority r (max (k.priority r) (k.priority x)) } := by
  exact locks_inherit_of hslots (by simp) hr x

end Locks

/-- What `recalculate_receiver_priority` finds: the greatest of the base priority and the priorities
of the tasks that wait for a reply. -/
theorem isGreatest_receiverPriority {k : Kernel N} {r : Fin N}
    (hid : ((k.sched.tasks r).id : Nat) = r) :
    IsGreatest (insert (k.sched.tasks r).basePriority
        (k.priority '' { x : Fin N | (x : Nat) < k.sched.taskCount ∧ k.Owes r x }))
      (k.receiverPriority r) := by
  have h := isGreatest_foldl (fun x : Fin N => (x : Nat) < k.sched.taskCount ∧ k.Owes r x)
    k.priority (fun (b : Nat) (i : Fin N) => show
      (if (i : Nat) < k.sched.taskCount ∧ (k.ipc i).state = .replyBlocked ∧
          (k.ipc i).receiverId = (k.sched.tasks r).id ∧ k.priority i > b then k.priority i
        else b) = _ by
      rw [hid]
      simp only [Owes, and_assoc])
    (List.finRange N) (k.sched.tasks r).basePriority
  have hset : { x : Fin N | x ∈ List.finRange N ∧ (x : Nat) < k.sched.taskCount ∧ k.Owes r x } =
      { x : Fin N | (x : Nat) < k.sched.taskCount ∧ k.Owes r x } := by
    ext x
    simp
  rw [hset] at h
  exact h

end Kernel

end AuroraOS
