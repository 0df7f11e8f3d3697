import Mathlib.Data.List.Infix
import Mathlib.Logic.Function.Basic

namespace H2kvm.Framework

/-- A tree of keys with values: at each path the values of the key there, if there is one. -/
abbrev Keys (ι ν : Type*) := List ι → Option (ι → Option ν)

namespace Keys

variable {ι ν : Type*} [DecidableEq ι]

def value (t : Keys ι ν) (p : List ι) (n : ι) : Option ν := (t p).bind fun key => key n

/-- The key at a path with these values set; it is made where it is missing. -/
def write (t : Keys ι ν) (p : List ι) (w : ι → Option ν) : Keys ι ν :=
  fun q => if q = p then some fun n => (w n).or (t.value p n) else t q

section lookups

variable {t t' : Keys ι ν} {p q : List ι} {w : ι → Option ν} {n : ι} {v : ν}

theorem write_self (t : Keys ι ν) (p : List ι) (w : ι → Option ν) :
    t.write p w p = some fun n => (w n).or (t.value p n) := if_pos rfl

theorem value_write_self : (t.write p w).value p n = (w n).or (t.value p n) := by
  rw [value, write_self, Option.bind_some]

end lookups

end Keys

end H2kvm.Framework
