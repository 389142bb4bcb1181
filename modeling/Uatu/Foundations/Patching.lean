import Uatu.Foundations.Memory

/-!
# Patched words

A tool that plants breakpoints reads a word, writes a patched version of it and later writes the
word back. This file follows one byte of the memory through such operations: `shown` is what the
memory holds at `x` while a patch is in place and the owner's byte there is `o`, and `Saves` says
that a saved word has the owner's byte. The byte comes back when the word is restored
(`restore_shown`), whatever happened to the other bytes and however the words overlap.
-/

namespace ByteMemory

variable {n : ℕ} (patch : BitVec 64 → BitVec 64)

/-- Replace the word at an address by its patched version. -/
def plant (m : Memory n) (a : BitVec n) : Memory n := writeWord m a (patch (readWord m a))

/-- The byte at `x` while the word `w` at `a` is patched and the owner's byte is `o`. -/
def shown (p : BitVec n × BitVec 64) (x : BitVec n) (o : BitVec 8) : BitVec 8 :=
  if InWord p.1 x then byte (patch p.2) (x - p.1).toNat else o

/-- The word saved at `a` has the byte `o` at `x`, if it covers `x`. -/
def Saves (a : BitVec n) (w : BitVec 64) (x : BitVec n) (o : BitVec 8) : Prop :=
  InWord a x → byte w (x - a).toNat = o

variable {patch} {m : Memory n} {a x : BitVec n} {w : BitVec 64} {o : BitVec 8}

theorem saves_readWord (h : m x = o) : Saves a (readWord m a) x o := fun hx => by
  rw [byte_readWord_sub m hx, h]

theorem plant_apply (h : m x = o) : plant patch m a x = shown patch (a, readWord m a) x o := by
  unfold plant shown writeWord
  split_ifs with hx
  · rfl
  · exact h

theorem shown_of_not_inWord (h : ¬ InWord a x) : shown patch (a, w) x o = o := if_neg h

/-- Writing a saved word back keeps the owner's byte. -/
theorem writeWord_saves (hm : ¬ InWord a x → m x = o) (hs : Saves a w x o) :
    writeWord m a w x = o := by
  unfold writeWord
  split_ifs with hx
  · exact hs hx
  · exact hm hx

/-- Writing the saved word back undoes the patch. -/
theorem restore_shown (hm : m x = shown patch (a, w) x o) (hs : Saves a w x o) :
    writeWord m a w x = o :=
  writeWord_saves (fun hx => hm.trans (shown_of_not_inWord hx)) hs

end ByteMemory
