import HiToolchain.Binary64.Basic

/-!
Exponential and logarithm. Their last bits differ from machine to machine, so what is computed
with them is a function of the two, and what is proved of it holds whatever they are.
-/

namespace HiToolchain

/-- The exponential and the natural logarithm of the machine that a program runs on. -/
class Elementary where
  exp : Binary64 → Binary64
  log : Binary64 → Binary64

end HiToolchain
