/-!
What a program finds around it when it starts.
-/

namespace StreamLayers

abbrev Environment := List (String × String)

structure Surroundings where
  env : Environment := []
  /-- The home directory of the account. -/
  account : String
  /-- Whether somebody watches the standard output. -/
  isTerminal : Bool := false
  deriving Repr

/-- The home directory: the variables may name another one than the account. -/
def Surroundings.home (s : Surroundings) : String :=
  ((s.env.lookup "HOME").filter (!·.isEmpty)).getD s.account

end StreamLayers
