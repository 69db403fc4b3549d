import HubPack.Reader

/-!
A place in a buffer. Reads go on from there, one after the other. A read that fails is not undone:
the next one goes on where it stopped.
-/
namespace HubPack

structure Cursor where
  buffer : Bytes
  /-- What is not read yet. -/
  rest : Bytes
  limit : Nat
  deriving DecidableEq, Repr

namespace Cursor

def start (limit : Nat) (buffer : Bytes) : Cursor := { buffer, rest := buffer, limit }

def position (c : Cursor) : Nat := c.buffer.length - c.rest.length

def remaining (c : Cursor) : Nat := c.rest.length

def moveTo (c : Cursor) (rest : Bytes) : Cursor := { c with rest }

@[simp] theorem buffer_moveTo (c : Cursor) (rest : Bytes) : (c.moveTo rest).buffer = c.buffer := rfl

@[simp] theorem rest_moveTo (c : Cursor) (rest : Bytes) : (c.moveTo rest).rest = rest := rfl

@[simp] theorem limit_moveTo (c : Cursor) (rest : Bytes) : (c.moveTo rest).limit = c.limit := rfl

/-- A read under the limit of the cursor, and where it leaves the cursor. -/
def read {α : Type} (c : Cursor) (r : Nat → Reader α) : Except WireError α × Cursor :=
  match r c.limit c.rest with
  | .ok a rest => (.ok a, c.moveTo rest)
  | .error e rest => (.error e, c.moveTo rest)

end Cursor

end HubPack
