import Mgcore.Base

/-!
# Console input and output

The part of `src/kernel/console.c` that the file system calls: the input ring, which polls the serial port
before every read, and the stream of bytes handed to `console_putc`.
-/

namespace Mgcore
open Function

def inputCapacity : Nat := 128  -- `CONSOLE_INPUT_CAPACITY`

/-- `serial` holds the bytes that wait in the serial port, `output` the bytes written so far. -/
structure Console where
  inputBuffer : Nat → UInt8 := fun _ => 0
  inputReadIndex : Nat := 0
  inputWriteIndex : Nat := 0
  serial : List UInt8 := []
  output : List UInt8 := []

def inputBufferIsFull (c : Console) : Prop := (c.inputWriteIndex + 1) % inputCapacity = c.inputReadIndex

instance (c : Console) : Decidable (inputBufferIsFull c) := inferInstanceAs (Decidable (_ = _))

def inputBufferPop (c : Console) : Option UInt8 × Console :=
  if c.inputReadIndex = c.inputWriteIndex then (none, c)
  else
    (some (c.inputBuffer c.inputReadIndex), { c with inputReadIndex := (c.inputReadIndex + 1) % inputCapacity })

def consoleEnqueueInput (c : Console) (b : UInt8) : Console :=
  if inputBufferIsFull c then c
  else
    { c with
      inputBuffer := update c.inputBuffer c.inputWriteIndex b
      inputWriteIndex := (c.inputWriteIndex + 1) % inputCapacity }

def consoleTryReadChar (c : Console) : Option UInt8 × Console :=
  match c.serial with
  | [] => inputBufferPop c
  | b :: rest => inputBufferPop (consoleEnqueueInput { c with serial := rest } b)

/-- The read loops of `fs_read_fd`: up to `count` bytes, until the ring is empty. -/
def consoleReadLoop : Nat → Console → List UInt8 × Console
  | 0, c => ([], c)
  | count + 1, c =>
      match consoleTryReadChar c with
      | (none, c) => ([], c)
      | (some b, c) => (b :: (consoleReadLoop count c).1, (consoleReadLoop count c).2)

def consoleWriteN (c : Console) (bytes : List UInt8) : Console := { c with output := c.output ++ bytes }

end Mgcore
