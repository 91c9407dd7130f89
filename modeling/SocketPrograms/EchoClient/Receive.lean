import Mathlib.Algebra.Ring.Nat
import SocketPrograms.Lib.Words

/-! `TCP_Echo_Client` and the client of IPv4_TCP, from `send` on, with the results of their calls
of `recv`. -/

namespace SocketPrograms.EchoClient
open Lib CString

def BUF_SIZE : Nat := 100
def EXIT_SUCCESS : Nat := 0
def EXIT_FAILURE : Nat := 1
def LF : UInt8 := 10

@[ext] structure Outcome where
  stdout : Bytes
  status : Nat
deriving DecidableEq, Repr

/-- Where the two programs differ: what is printed in front of the loop, the type of the tally
of bytes, and the status when a system call fails. -/
structure Client where
  banner : Bytes
  tally : Nat → Nat
  systemStatus : Nat

/-- The tally is an `unsigned int`, and `die_with_system_message` exits with success. -/
def tcpEchoClient : Client :=
  ⟨ascii ['R', 'e', 'c', 'e', 'i', 'v', 'e', 'd', ':', ' '], (· % 2 ^ 32), EXIT_SUCCESS⟩

def ipv4Tcp : Client := ⟨[], id, EXIT_FAILURE⟩

namespace Client
variable (client : Client)

/-- The receive loop. A result `none` is a failure, and behind the last result is the end of the
stream. `fputs` prints the string in the buffer up to its first NUL. -/
def receiveLoop (echoStrLen : Nat) : Nat → List (Option Bytes) → Outcome
  | total, [] => if total < echoStrLen then ⟨[], EXIT_FAILURE⟩ else ⟨[LF], EXIT_SUCCESS⟩
  | total, result :: results =>
      if total < echoStrLen then
        match result with
        | none => ⟨[], client.systemStatus⟩
        | some [] => ⟨[], EXIT_FAILURE⟩
        | some (b :: bytes) =>
          let buffer := b :: bytes ++ [NUL]
          let later := receiveLoop echoStrLen (client.tally (total + (b :: bytes).length)) results
          ⟨cString buffer ++ later.stdout, later.status⟩
      else ⟨[LF], EXIT_SUCCESS⟩

def main (echoStr : Bytes) (numBytes : Int) (results : List (Option Bytes)) : Outcome :=
  if numBytes < 0 then ⟨[], client.systemStatus⟩
  else if numBytes ≠ echoStr.length then ⟨[], EXIT_FAILURE⟩
  else
    let outcome := client.receiveLoop echoStr.length 0 results
    ⟨client.banner ++ outcome.stdout, outcome.status⟩

end Client

example : ipv4Tcp.main [104, 105] 2 [some [104], some [105, 0, 33]] = ⟨[104, 105, LF], 0⟩ := by decide

end SocketPrograms.EchoClient
