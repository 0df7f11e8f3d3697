import Mathlib.Data.List.Basic
import H2kvm.Framework.Data
import H2kvm.Framework.Run

namespace H2kvm.Framework

/-- A counting semaphore, with those who hold it and those who wait for it. -/
structure Semaphore where
  value : Nat
  inside : List Nat := []
  waiting : List Nat := []
  deriving DecidableEq

namespace Semaphore

variable (s : Semaphore) (c : Nat)

/-- `acquire` goes through at once. -/
def isFree : Bool := 0 < s.value

/-- Whoever waits is let through. -/
def lets : Bool := s.isFree && s.waiting.contains c

def grant : Semaphore := { s with value := s.value - 1, inside := c :: s.inside }

def enqueue : Semaphore := { s with waiting := s.waiting ++ [c] }

def dequeue : Semaphore := { s with waiting := s.waiting.erase c }

def release : Semaphore := { s with value := s.value + 1, inside := s.inside.erase c }

/-- The semaphore of so many slots. -/
def Holds (slots : Nat) : Prop := s.value + s.inside.length = slots

variable {s c} {slots : Nat}

theorem Holds.grant (h : s.Holds slots) (free : s.isFree = true) : (s.grant c).Holds slots := by
  have positive : 0 < s.value := by simpa [isFree] using free
  simp only [Holds, Semaphore.grant, List.length_cons] at h ⊢
  omega

theorem Holds.release (h : s.Holds slots) (member : c ∈ s.inside) : (s.release c).Holds slots := by
  have positive : 0 < s.inside.length := List.length_pos_of_mem member
  simp only [Holds, Semaphore.release, List.length_erase_of_mem member] at h ⊢
  omega

theorem Holds.le (h : s.Holds slots) : s.inside.length ≤ slots := by
  unfold Holds at h
  omega

theorem isFree_of_lets (h : s.lets c = true) : s.isFree = true := by
  simp only [lets, Bool.and_eq_true] at h
  exact h.1

end Semaphore

end H2kvm.Framework
