import LinuseFs.Model.Serialization

/-!
# The client behind FUSE

`fuse.c`.  A callback of FUSE is a function of the package that the server answers with.  The
entries that `do_readdir` reports are the blocks it hands to `filler`, in order.
-/

set_option autoImplicit false

namespace LinuseFs.Model

open LinuseFs.Computation

/-- The loop of `do_readdir` from byte `size` of the reply on.  The index is an `int`; the count
bounds the rounds, each of which moves it on. SRCLINE: fuse.c:200-207 -/
def leerEntradas (response : Package) : ℕ → ℕ → Option (List (List UInt8))
  | 0, _ => none
  | n + 1, size =>
    if size < response.size then do
      let len ← peek response.data size sizeStringLen
      let len := fromLe len
      let size := size + sizeStringLen
      let entry ← peek response.data size len
      if size + len ≥ 2 ^ 31 then none
      else do
        let entries ← leerEntradas response n (size + len)
        return entry :: entries
    else return []

/-- `do_readdir`: its result and the strings it passes to `filler`. SRCLINE: fuse.c:185-214 -/
def doReaddir (response : Package) : Option (ℤ × List (List UInt8)) := do
  let filled : List (List UInt8) := [[46, 0], [46, 46, 0]]
  if response.messageId < 0 then return (-2, filled)
  else do
    let entries ← leerEntradas response (response.size + 1) 0
    return (0, filled ++ entries)

end LinuseFs.Model
