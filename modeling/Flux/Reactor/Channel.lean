import Mathlib.Data.BitVec

/-!
# `Channel`

The interest of one descriptor: `_events` is what the loop is asked to watch for, `_revents` what
the last poll reported.  Both are masks of 32 bits, with the values of `<sys/epoll.h>`.  The setters
change the mask and call `Update`; what `Update` does is the poller's business, so here they only
return the channel, and the callers record the call.
-/

namespace Flux

def EPOLLIN : BitVec 32 := 0x001#32
def EPOLLPRI : BitVec 32 := 0x002#32
def EPOLLOUT : BitVec 32 := 0x004#32
def EPOLLERR : BitVec 32 := 0x008#32
def EPOLLHUP : BitVec 32 := 0x010#32
def EPOLLRDHUP : BitVec 32 := 0x2000#32

def hasBits (mask bits : BitVec 32) : Bool := mask &&& bits != 0#32

@[simp] theorem hasBits_zero (bits : BitVec 32) : hasBits 0#32 bits = false := by
  rw [hasBits, BitVec.zero_and]
  rfl

structure Channel where
  events : BitVec 32
  revents : BitVec 32
deriving DecidableEq, Repr

namespace Channel

/-- The constructor, without the descriptor, which the connection holds. -/
def new : Channel where
  events := 0#32
  revents := 0#32

def setREvents (c : Channel) (events : BitVec 32) : Channel := { c with revents := events }

def readAble (c : Channel) : Bool := hasBits c.events EPOLLIN

def writeAble (c : Channel) : Bool := hasBits c.events EPOLLOUT

def enableRead (c : Channel) : Channel :=
  { c with events := c.events ||| (EPOLLIN ||| EPOLLRDHUP ||| EPOLLPRI) }

def enableWrite (c : Channel) : Channel := { c with events := c.events ||| EPOLLOUT }

def disableRead (c : Channel) : Channel :=
  { c with events := c.events &&& ~~~(EPOLLIN ||| EPOLLRDHUP ||| EPOLLPRI) }

def disableWrite (c : Channel) : Channel := { c with events := c.events &&& ~~~EPOLLOUT }

def disableAll (c : Channel) : Channel := { c with events := 0#32 }

@[simp] theorem enableWrite_writeAble (c : Channel) : c.enableWrite.writeAble = true := by
  have habsorb : (c.events ||| EPOLLOUT) &&& EPOLLOUT = EPOLLOUT := by
    ext i
    simp only [BitVec.getElem_and, BitVec.getElem_or]
    cases c.events[i] <;> cases EPOLLOUT[i] <;> rfl
  rw [writeAble, hasBits, enableWrite, habsorb]
  rfl

@[simp] theorem enableRead_writeAble (c : Channel) : c.enableRead.writeAble = c.writeAble := by
  have hread : (c.events ||| (EPOLLIN ||| EPOLLRDHUP ||| EPOLLPRI)) &&& EPOLLOUT =
      c.events &&& EPOLLOUT := by
    have hdisj : (EPOLLIN ||| EPOLLRDHUP ||| EPOLLPRI) &&& EPOLLOUT = 0#32 := by decide
    rw [BitVec.and_comm, BitVec.and_or_distrib_left, BitVec.and_comm EPOLLOUT c.events,
      BitVec.and_comm EPOLLOUT, hdisj, BitVec.or_zero]
  rw [writeAble, hasBits, enableRead, hread]
  rfl

end Channel

end Flux
