/-!
# Octet text

Names, paths and printed lines are sequences of octets: nothing promises that they are valid in
any encoding. A text is therefore a `String` whose characters stand for one octet each, the code
points 0 to 255.

* `Octets.ofBytes`, `Octets.toBytes`: between bytes and text, inverse to each other on bytes
  (`toBytes_ofBytes`).
* `Octets.isSpace`: the six characters at which a line is split and a number may start.
-/

namespace WasmDebugger.Octets

/-- One character per byte. -/
def ofBytes (bytes : List UInt8) : String :=
  String.ofList (bytes.map fun b => Char.ofNat b.toNat)

def toBytes (text : String) : List UInt8 :=
  text.toList.map fun c => c.toNat.toUInt8

theorem toNat_ofNat_byte (b : UInt8) : (Char.ofNat b.toNat).toNat = b.toNat := by
  have hb : b.toNat < 256 := b.toNat_lt
  have hv : b.toNat.isValidChar := Or.inl (by omega)
  rw [Char.ofNat, dif_pos hv]
  rfl

theorem toBytes_ofBytes (bytes : List UInt8) : toBytes (ofBytes bytes) = bytes := by
  induction bytes with
  | nil => rfl
  | cons b bytes ih =>
    simp only [toBytes, ofBytes, String.toList_ofList] at ih ⊢
    simp [toNat_ofNat_byte, ih]

/-- Space, tab, line feed, vertical tab, form feed and carriage return. -/
def isSpace (c : Char) : Bool :=
  c = ' ' || (9 ≤ c.toNat && c.toNat ≤ 13)

end WasmDebugger.Octets
