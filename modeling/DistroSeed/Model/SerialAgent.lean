import DistroSeed.Library.PyText

/-! What `ds-serial-agent` writes to the control port while it runs one command. -/

namespace DistroSeed

open PyText

/-- The name of a command: any printable text without blanks, a dash, and the twelve
hexadecimal digits that `_run_agent_script` takes from a fresh UUID. -/
structure Token where
  name : Bytes
  hex : Bytes
  name_printable : ∀ b ∈ name, 33 ≤ b.toNat ∧ b.toNat ≤ 126
  hex_length : hex.length = 12
  hex_digit : ∀ b ∈ hex, (48 ≤ b.toNat ∧ b.toNat ≤ 57) ∨ (97 ≤ b.toNat ∧ b.toNat ≤ 102)

/-- `f"{name}-{uuid.uuid4().hex[:12]}"`. -/
def Token.bytes (token : Token) : Bytes := token.name ++ 45 :: token.hex

/-- `echo "__DS_BEGIN__ ${token}"`. -/
def beginLine (token : Token) : Bytes := ascii "__DS_BEGIN__ " ++ token.bytes ++ [10]

/-- The line on a failed command. -/
def errLine (token : Token) (status : UInt8) : Bytes :=
  if status ≠ 0 then
    ascii "ERR task " ++ token.bytes ++ ascii " failed with status " ++ decimal status.toNat ++ [10]
  else []

/-- The part of the end line that the host waits for. -/
def endMarker (token : Token) : Bytes := ascii "__DS_END__ " ++ token.bytes ++ [32]

/-- `echo "__DS_END__ ${token} ${status}"`. -/
def endLine (token : Token) (status : UInt8) : Bytes :=
  endMarker token ++ decimal status.toNat ++ [10]

/-- `run_command`: everything between the start of a command and its end line. -/
def runCommand (token : Token) (output : Bytes) (status : UInt8) : Bytes :=
  beginLine token ++ output ++ errLine token status ++ endLine token status

end DistroSeed
