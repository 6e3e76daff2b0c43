import Mathlib.Control.Monad.Writer

namespace Tdb.Library

-- A computation that calls on the system, with the calls it has made, in their order.
abbrev Calling (ε α : Type) := Writer (List ε) α

namespace Calling

variable {ε δ α β : Type}

def result (x : Calling ε α) : α := (WriterT.run x).1

def calls (x : Calling ε α) : List ε := (WriterT.run x).2

-- One call, with the answer that comes back.
def call (c : ε) (answer : α) : Calling ε α := do
  tell [c]
  return answer

-- The same computation in a system that has more calls.
def within (f : ε → δ) (x : Calling ε α) : Calling δ α := do
  tell (x.calls.map f)
  return x.result

@[simp] theorem result_pure (a : α) : (pure a : Calling ε α).result = a := rfl

@[simp] theorem calls_pure (a : α) : (pure a : Calling ε α).calls = [] := rfl

@[simp] theorem result_bind (x : Calling ε α) (f : α → Calling ε β) :
    (x >>= f).result = (f x.result).result := rfl

@[simp] theorem calls_bind (x : Calling ε α) (f : α → Calling ε β) :
    (x >>= f).calls = x.calls ++ (f x.result).calls := rfl

@[simp] theorem calls_tell (cs : List ε) : calls (tell cs : Calling ε PUnit) = cs := rfl

@[simp] theorem result_call (c : ε) (answer : α) : (call c answer).result = answer := rfl

@[simp] theorem calls_call (c : ε) (answer : α) : (call c answer).calls = [c] := rfl

@[simp] theorem result_within (f : ε → δ) (x : Calling ε α) : (x.within f).result = x.result := rfl

@[simp] theorem calls_within (f : ε → δ) (x : Calling ε α) :
    (x.within f).calls = x.calls.map f :=
  List.append_nil _

end Calling

end Tdb.Library
