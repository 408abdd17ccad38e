/-!
# Py.Error

A raised exception, as far as the program reports it: the name of its class and its text.
-/

namespace Constat

structure PyError where
  cls : String
  msg : String
deriving DecidableEq

/-- `f"{type(e).__name__}: {e}"`. -/
def PyError.describe (e : PyError) : String := e.cls ++ ": " ++ e.msg

end Constat
