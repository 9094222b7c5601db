import Cs140e.Library.LittleEndian

/-!
# The messages between the unix side and the pi

A translation of `pi-message.h` for the messages of the fake-pi lab.
-/

namespace Cs140e.FakePi

open Cs140e.Library

/-- The opcodes that may be sent; `PI_END` and `PI_NEED_ACK` are not messages. -/
inductive Opcode where
  | null
  | ready
  | printString
  | printChar
  | reboot
  | putCodeInfo
  | getCodeInfo
  | putCode
  | getCode
  | gpioRead
  | gpioReadReply
  | gpioWrite
  | gpioSetInput
  | gpioSetOutput
  | put32
  | get32
  | get32Reply
  deriving DecidableEq, Repr

/-- The value of the opcode in the enumeration of the source. -/
def Opcode.code : Opcode → UInt8
  | .null => 0
  | .ready => 1
  | .printString => 2
  | .printChar => 3
  | .reboot => 4
  | .putCodeInfo => 5
  | .getCodeInfo => 6
  | .putCode => 7
  | .getCode => 8
  | .gpioRead => 9
  | .gpioReadReply => 10
  | .gpioWrite => 11
  | .gpioSetInput => 12
  | .gpioSetOutput => 13
  | .put32 => 14
  | .get32 => 15
  | .get32Reply => 16

def Opcode.all : List Opcode :=
  [.null, .ready, .printString, .printChar, .reboot, .putCodeInfo, .getCodeInfo, .putCode,
    .getCode, .gpioRead, .gpioReadReply, .gpioWrite, .gpioSetInput, .gpioSetOutput, .put32,
    .get32, .get32Reply]

/-- The opcode a received byte stands for. -/
def Opcode.ofCode? (byte : UInt8) : Option Opcode :=
  Opcode.all.find? fun opcode => opcode.code == byte

@[simp]
theorem Opcode.ofCode?_code (opcode : Opcode) : Opcode.ofCode? opcode.code = some opcode := by
  cases opcode <;> rfl

/-- What `net_putchar` sends for each character. -/
def printChars (chars : List UInt8) : List UInt8 :=
  chars.flatMap fun c => [Opcode.printChar.code, c]

@[simp]
theorem printChars_nil : printChars [] = [] := rfl

@[simp]
theorem printChars_append (first second : List UInt8) :
    printChars (first ++ second) = printChars first ++ printChars second :=
  List.flatMap_append

@[simp]
theorem printChars_cons (c : UInt8) (rest : List UInt8) :
    printChars (c :: rest) = Opcode.printChar.code :: c :: printChars rest := rfl

/-- What the unix side asks of the pi once it runs. -/
inductive Request where
  | put32 (addr val : UInt32)
  | get32 (addr : UInt32)
  | reboot
  deriving DecidableEq, Repr

def Request.opcode : Request → Opcode
  | .put32 _ _ => .put32
  | .get32 _ => .get32
  | .reboot => .reboot

/-- The bytes of a request after its opcode. -/
def Request.arguments : Request → List UInt8
  | .put32 addr val => LittleEndian.bytesOf addr ++ LittleEndian.bytesOf val
  | .get32 addr => LittleEndian.bytesOf addr
  | .reboot => []

def Request.encode (request : Request) : List UInt8 :=
  request.opcode.code :: request.arguments

def encodeAll (requests : List Request) : List UInt8 := requests.flatMap Request.encode

@[simp]
theorem encodeAll_nil : encodeAll [] = [] := rfl

@[simp]
theorem encodeAll_cons (request : Request) (rest : List Request) :
    encodeAll (request :: rest) = request.encode ++ encodeAll rest := rfl

@[simp]
theorem encodeAll_append (first second : List Request) :
    encodeAll (first ++ second) = encodeAll first ++ encodeAll second :=
  List.flatMap_append

end Cs140e.FakePi
