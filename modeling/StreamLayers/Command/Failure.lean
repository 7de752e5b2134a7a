import StreamLayers.Fault

/-!
How a command fails: with a message, and with the causes behind it.
-/

namespace StreamLayers

structure Failure where
  message : String
  /-- The wordings of what led to it, the nearest first. -/
  causes : List String := []
  deriving DecidableEq, Repr

namespace Failure

def ofFault (e : Fault) : Failure := ⟨e.message, e.causes⟩

def ofOs (e : OsError) : Failure := ⟨e.text, []⟩

/-- The failure as the cause of a step that could not be done. -/
def during (step : String) (f : Failure) : Failure := ⟨step, f.message :: f.causes⟩

def chain (f : Failure) : List String := f.message :: f.causes

/-- The lines of one cause. The lead stands before the first of them, blanks before the others. -/
def causeLines (lead : String) (cause : String) : List String :=
  match cause.splitOn "\n" with
  | [] => []
  | line :: rest => (lead ++ line) :: rest.map ("".pushn ' ' lead.length ++ ·)

/-- What stands before the cause with number `i` where there are several. -/
def numberLead (i : Nat) : String :=
  let digits := toString i
  "".pushn ' ' (5 - digits.length) ++ digits ++ ": "

/-- The lines that tell a user. Several causes are numbered. -/
def lines (f : Failure) : List String :=
  ("Error: " ++ f.message).splitOn "\n" ++
    match f.causes with
    | [] => []
    | [cause] => "" :: "Caused by:" :: causeLines "    " cause
    | causes =>
      "" :: "Caused by:" ::
        (causes.zipIdx.map fun (cause, i) => causeLines (numberLead i) cause).flatten

@[simp] theorem chain_during (step : String) (f : Failure) :
    (f.during step).chain = step :: f.chain := rfl

end Failure

end StreamLayers
