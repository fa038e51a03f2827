import TileConsole.Cartridge
import TileConsole.Proofs.Bytes

namespace TileConsole.Cartridge

section Header

variable (cartridge : Cartridge) (rest : Bytes)

-- What comes before the sections: the signature, the entry point and the sizes.
def header : Bytes :=
  magic ++ Bytes.littleEndian 4 cartridge.entry.toNat ++
    Bytes.littleEndian 4 cartridge.code.length ++ Bytes.littleEndian 4 cartridge.graphics.length

theorem length_header : cartridge.header.length = headerSize := by
  simp [header, magic, headerSize]

theorem take_header : (cartridge.header ++ rest).take magic.length = magic := by
  rw [header, List.append_assoc, List.append_assoc, List.append_assoc]
  exact List.take_left

theorem headerField_append (front : Bytes) {n : Nat} (h : n ≤ maxSection) :
    headerField (front ++ (Bytes.littleEndian 4 n ++ rest)) front.length = n := by
  have hfield : (Bytes.littleEndian 4 n ++ rest).take 4 = Bytes.littleEndian 4 n :=
    List.take_left' (Bytes.length_littleEndian 4 n)
  rw [headerField, List.drop_left, hfield, Bytes.toNat_littleEndian]
  exact Nat.mod_eq_of_lt (Nat.lt_succ_of_le h)

theorem headerField_entry :
    headerField (cartridge.header ++ rest) 10 = cartridge.entry.toNat := by
  have hentry : cartridge.entry.toNat ≤ maxSection := Nat.le_of_lt_succ cartridge.entry.toNat_lt
  rw [header, List.append_assoc, List.append_assoc, List.append_assoc]
  exact headerField_append _ magic hentry

theorem headerField_code (h : cartridge.code.length ≤ maxSection) :
    headerField (cartridge.header ++ rest) 14 = cartridge.code.length := by
  rw [header, List.append_assoc, List.append_assoc]
  exact headerField_append _ (magic ++ Bytes.littleEndian 4 cartridge.entry.toNat) h

theorem headerField_graphics (h : cartridge.graphics.length ≤ maxSection) :
    headerField (cartridge.header ++ rest) 18 = cartridge.graphics.length := by
  rw [header, List.append_assoc]
  exact headerField_append _ (magic ++ Bytes.littleEndian 4 cartridge.entry.toNat ++
    Bytes.littleEndian 4 cartridge.code.length) h

end Header

section Saved

variable {cartridge : Cartridge}

theorem toBytes_eq (hcode : cartridge.code.length ≤ maxSection)
    (hgraphics : cartridge.graphics.length ≤ maxSection) :
    cartridge.toBytes = .ok (cartridge.header ++ (cartridge.code ++ cartridge.graphics)) := by
  rw [toBytes, if_neg (by omega), ← List.append_assoc]
  rfl

-- Behind a header the sections are taken by the sizes that it states.
theorem ofBytes_header_append (hcode : cartridge.code.length ≤ maxSection)
    (hgraphics : cartridge.graphics.length ≤ maxSection) (sections : Bytes) :
    ofBytes (cartridge.header ++ sections) =
      if sections.length < cartridge.code.length then
        .error (.truncated .code cartridge.code.length sections.length)
      else if (sections.drop cartridge.code.length).length < cartridge.graphics.length then
        .error (.truncated .graphics cartridge.graphics.length
          (sections.drop cartridge.code.length).length)
      else .ok ⟨cartridge.entry, sections.take cartridge.code.length,
        (sections.drop cartridge.code.length).take cartridge.graphics.length⟩ := by
  have hlength := cartridge.length_header
  have hsections : (cartridge.header ++ sections).drop headerSize = sections :=
    List.drop_left' hlength
  rw [ofBytes, take_header, if_neg (not_not_intro rfl), if_neg (by rw [List.length_append]; omega)]
  dsimp only
  rw [headerField_code _ _ hcode, headerField_graphics _ _ hgraphics, headerField_entry, hsections,
    UInt32.ofNat_toNat]

-- A saved cartridge is read back. What comes after it does not matter.
theorem ofBytes_append (hcode : cartridge.code.length ≤ maxSection)
    (hgraphics : cartridge.graphics.length ≤ maxSection) (rest : Bytes) :
    ofBytes (cartridge.header ++ (cartridge.code ++ cartridge.graphics) ++ rest) =
      .ok cartridge := by
  rw [List.append_assoc, List.append_assoc, ofBytes_header_append hcode hgraphics, List.drop_left,
    List.take_left, List.take_left, if_neg (by rw [List.length_append]; omega),
    if_neg (by rw [List.length_append]; omega)]

end Saved

section Cut

variable {cartridge : Cartridge} {k : Nat}

-- The error of a saved cartridge of which only the first `k` bytes are left. It
-- names the part that the cut is in and how much of that part is left.
def cutError (cartridge : Cartridge) (k : Nat) : CartridgeError :=
  if k < 10 then .notCartridge
  else if k < 22 then .truncated .header 22 k
  else if k < 22 + cartridge.code.length then
    .truncated .code cartridge.code.length (k - 22)
  else .truncated .graphics cartridge.graphics.length (k - 22 - cartridge.code.length)

theorem ofBytes_take_magic (data : Bytes) (hk : k < magic.length) :
    ofBytes (data.take k) = .error .notCartridge := by
  have hshort : (data.take k).take magic.length ≠ magic := by
    intro same
    have hlength := congrArg List.length same
    rw [List.length_take, List.length_take] at hlength
    omega
  rw [ofBytes, if_pos hshort]

theorem ofBytes_take_header (rest : Bytes) (hmagic : magic.length ≤ k) (hk : k < headerSize) :
    ofBytes ((cartridge.header ++ rest).take k) = .error (.truncated .header headerSize k) := by
  have hlength : ((cartridge.header ++ rest).take k).length = k := by
    have hheader := cartridge.length_header
    rw [List.length_take, List.length_append]
    omega
  have hsignature : ((cartridge.header ++ rest).take k).take magic.length = magic := by
    rw [List.take_take, Nat.min_eq_left hmagic, take_header]
  rw [ofBytes, hsignature, if_neg (not_not_intro rfl), hlength, if_pos hk]

theorem ofBytes_take (hcode : cartridge.code.length ≤ maxSection)
    (hgraphics : cartridge.graphics.length ≤ maxSection) (hk : k < cartridge.size) :
    ofBytes ((cartridge.header ++ (cartridge.code ++ cartridge.graphics)).take k) =
      .error (cartridge.cutError k) := by
  have hheader : cartridge.header.length = 22 := cartridge.length_header
  have hsize : k < 22 + cartridge.code.length + cartridge.graphics.length := hk
  unfold cutError
  by_cases hmagic : k < 10
  · rw [ofBytes_take_magic _ hmagic, if_pos hmagic]
  rw [if_neg hmagic]
  by_cases hfields : k < 22
  · rw [if_pos hfields]
    exact ofBytes_take_header _ (Nat.le_of_not_lt hmagic) hfields
  rw [if_neg hfields]
  -- the cut is behind the header, which still states the sizes of the whole
  have hcut : (cartridge.header ++ (cartridge.code ++ cartridge.graphics)).take k =
      cartridge.header ++ (cartridge.code ++ cartridge.graphics).take (k - 22) := by
    rw [List.take_append, hheader, List.take_of_length_le (by omega)]
  have hleft : ((cartridge.code ++ cartridge.graphics).take (k - 22)).length = k - 22 := by
    rw [List.length_take, List.length_append]
    omega
  rw [hcut, ofBytes_header_append hcode hgraphics, List.length_drop, hleft]
  by_cases hinside : k < 22 + cartridge.code.length
  · rw [if_pos hinside, if_pos (by omega)]
  · rw [if_neg hinside, if_neg (by omega), if_pos (by omega)]

-- A saved cartridge replaces any other, whatever follows it. A beginning of it
-- replaces none.
theorem replace_saved (cartridge : Cartridge) (hcode : cartridge.code.length < 0x100000000)
    (hgraphics : cartridge.graphics.length < 0x100000000) :
    ∃ data, cartridge.toBytes = .ok data ∧ data.length = cartridge.size ∧
      (∀ (previous : Cartridge) (rest : Bytes),
        previous.replace (data ++ rest) = (cartridge, none)) ∧
      ∀ (previous : Cartridge) (k : Nat), k < data.length →
        previous.replace (data.take k) = (previous, some (cartridge.cutError k)) := by
  have hcode : cartridge.code.length ≤ maxSection := Nat.le_of_lt_succ hcode
  have hgraphics : cartridge.graphics.length ≤ maxSection := Nat.le_of_lt_succ hgraphics
  have hlength : (cartridge.header ++ (cartridge.code ++ cartridge.graphics)).length =
      cartridge.size := by
    rw [List.length_append, List.length_append, length_header, size, Nat.add_assoc]
  refine ⟨_, toBytes_eq hcode hgraphics, hlength, ?_, ?_⟩
  · intro previous rest
    rw [replace, ofBytes_append hcode hgraphics]
  · intro previous k hk
    rw [replace, ofBytes_take hcode hgraphics (hlength ▸ hk)]

-- Cuts in each part of a cartridge with the highest entry point.
theorem replace_saved_in_each_part :
    let cartridge : Cartridge := ⟨0xFFFFFFFF, [0x04, 0x00, 0x00], [0x08, 0x00]⟩
    ∃ data, cartridge.toBytes = .ok data ∧ data.length = 27 ∧
      Cartridge.empty.replace (data ++ [0xFF]) = (cartridge, none) ∧
      Cartridge.empty.replace (data.take 9) = (.empty, some .notCartridge) ∧
      Cartridge.empty.replace (data.take 21) = (.empty, some (.truncated .header 22 21)) ∧
      Cartridge.empty.replace (data.take 24) = (.empty, some (.truncated .code 3 2)) ∧
      Cartridge.empty.replace (data.take 25) = (.empty, some (.truncated .graphics 2 0)) := by
  intro cartridge
  obtain ⟨data, hdata, hlength, hread, hcut⟩ :=
    replace_saved cartridge (by decide) (by decide)
  have hsize : data.length = 27 := hlength
  exact ⟨data, hdata, hsize, hread .empty [0xFF], hcut .empty 9 (by omega),
    hcut .empty 21 (by omega), hcut .empty 24 (by omega), hcut .empty 25 (by omega)⟩

end Cut

end TileConsole.Cartridge
