-- SUMMARY: The dispatch of an authenticated payload on its first byte.
import TriHaRd.Node.Drift

/-!
# handle_message
-/

namespace TriHaRd

/-- The letters that `handle_message` switches on. -/
def letterS : UInt8 := 0x53
def letterT : UInt8 := 0x54
def letterU : UInt8 := 0x55
def letterD : UInt8 := 0x44

/-! Every message a node builds begins with the letter of its kind. -/

theorem head_siblingStr : siblingStr.head? = some letterS := rfl

theorem head_buildTainted (count : ℤ) (orgTs dummyTs : Timespec) :
    (buildTainted count orgTs dummyTs).head? = some letterT := rfl

theorem head_buildUntaint (count : ℤ) (views : Bool) (orgTs recTs xmtTs : Timespec) :
    (buildUntaint count views orgTs recTs xmtTs).head? = some letterU := rfl

theorem head_buildDrift (count sleepTimeMs : ℤ) (orgTs dummyTs : Timespec) :
    (buildDrift count sleepTimeMs orgTs dummyTs).head? = some letterD := rfl

/-- A payload with any other first byte is sent back to where it came from. -/
def ENode.handleMessage (s : ENode) (buff : List UInt8) (src : Addr) (amb : Ambient) : Outcome :=
  match buff with
  | [] => .quiet s
  | tag :: _ =>
    if tag = letterS then .quiet (s.handleSibling src)
    else if tag = letterT then s.handleTainted buff src amb
    else if tag = letterU then .quiet (s.handleUntaint buff src)
    else if tag = letterD then s.handleDrift buff amb
    else
      let (sent, retval) := s.sendMessage buff src
      ⟨s, sent, retval⟩

namespace ENode

theorem handleMessage_sibling {payload : List UInt8} (h : payload.head? = some letterS)
    (s : ENode) (src : Addr) (amb : Ambient) :
    s.handleMessage payload src amb = .quiet (s.handleSibling src) := by
  obtain ⟨tail, rfl⟩ := List.head?_eq_some_iff.mp h
  rfl

theorem handleMessage_tainted {payload : List UInt8} (h : payload.head? = some letterT)
    (s : ENode) (src : Addr) (amb : Ambient) :
    s.handleMessage payload src amb = s.handleTainted payload src amb := by
  obtain ⟨tail, rfl⟩ := List.head?_eq_some_iff.mp h
  rfl

theorem handleMessage_untaint {payload : List UInt8} (h : payload.head? = some letterU)
    (s : ENode) (src : Addr) (amb : Ambient) :
    s.handleMessage payload src amb = .quiet (s.handleUntaint payload src) := by
  obtain ⟨tail, rfl⟩ := List.head?_eq_some_iff.mp h
  rfl

theorem handleMessage_drift {payload : List UInt8} (h : payload.head? = some letterD)
    (s : ENode) (src : Addr) (amb : Ambient) :
    s.handleMessage payload src amb = s.handleDrift payload amb := by
  obtain ⟨tail, rfl⟩ := List.head?_eq_some_iff.mp h
  rfl

end ENode

end TriHaRd
