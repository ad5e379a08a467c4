import RoboDbg.PeImage

/-!
# Strings in the debuggee's memory

The name of a DLL and the text of a debug string are read into local buffers of
a fixed size and taken up to the first NUL.
-/

namespace RoboDbg

variable {b : Build}

def MAX_PATH : ℕ := 260

/-- The string at the start of a local buffer. Without a NUL in the buffer it goes on
behind its end. -/
def cString {α : Type*} [DecidableEq α] [OfNat α 0] (buffer beyond : List α) : List α :=
  if 0 ∈ buffer then buffer.takeWhile (· ≠ 0) else buffer ++ beyond

theorem cString_of_mem {α : Type*} [DecidableEq α] [OfNat α 0] {buffer : List α}
    (h : 0 ∈ buffer) (beyond : List α) : cString buffer beyond = buffer.takeWhile (· ≠ 0) :=
  if_pos h

def wideChars : List BYTE → List WORD
  | lo :: hi :: xs => Pod.ofBytes [lo, hi] :: wideChars xs
  | _ => []

namespace Util

def getDllName (os : Os b) (lpImageName : LPVOID b) (isUnicode : WORD) : Text :=
  if lpImageName = 0 then literal "<unknown>"
  else
    match os.memory.readProcessMemory lpImageName (Pod.size (LPVOID b)) with
    | none => literal "<read error>"
    | some bytes =>
      let actualStringPtr : LPVOID b := Pod.ofBytes bytes
      if actualStringPtr = 0 then literal "<null pointer>"
      else if isUnicode ≠ 0 then
        match os.memory.readProcessMemory actualStringPtr (MAX_PATH * 2) with
        | none => literal "<unicode read error>"
        | some wbuffer =>
          let name := os.text.wideCharToMultiByte .ACP
            (cString (wideChars wbuffer) os.text.beyondWide)
          if name.length < MAX_PATH then cString (name ++ [0]) [] else os.text.unconverted
      else
        match os.memory.readProcessMemory actualStringPtr MAX_PATH with
        | none => literal "<ansi read error>"
        | some buffer => cString buffer os.text.beyond

/-- The string that an `OUTPUT_DEBUG_STRING_EVENT` is reported with. Both buffers are
zeroed and one character longer than what is read. -/
def getDebugString (os : Os b) (lpDebugStringData : LPVOID b) (fUnicode nDebugStringLength : WORD) :
    Text :=
  if fUnicode = 0 then
    let size := min nDebugStringLength.toNat 1023
    let buffer := (os.memory.readProcessMemory lpDebugStringData size).getD []
    cString (buffer ++ [0]) []
  else
    let size := min (nDebugStringLength.toNat * 2) 2046
    let wbuffer := wideChars ((os.memory.readProcessMemory lpDebugStringData size).getD [])
    -- `size_needed` counts the terminator, and the string keeps it
    os.text.wideCharToMultiByte .UTF8 (cString (wbuffer ++ [0]) []) ++ [0]

end Util
end RoboDbg
