import TileConsole.Proofs.Cartridge

namespace TileConsole.Cartridge

-- Bytes that hold a whole cartridge: the signature, a header, and sections of
-- the sizes that the header states.
structure Complete (data : Bytes) : Prop where
  signature : magic <+: data
  header : headerSize ≤ data.length
  sections : headerField data 14 + headerField data 18 ≤ data.length - headerSize

-- Why bytes hold no cartridge. All that stands in front of what is missing is
-- there, so there is at most one reason.
inductive Refused (data : Bytes) : CartridgeError → Prop
  | signature (h : ¬magic <+: data) : Refused data .notCartridge
  | header (hsignature : magic <+: data) (h : data.length < headerSize) :
    Refused data (.truncated .header headerSize data.length)
  | code (hsignature : magic <+: data) (hheader : headerSize ≤ data.length)
    (h : data.length - headerSize < headerField data 14) :
    Refused data (.truncated .code (headerField data 14) (data.length - headerSize))
  | graphics (hsignature : magic <+: data) (hheader : headerSize ≤ data.length)
    (hcode : headerField data 14 ≤ data.length - headerSize)
    (h : data.length - headerSize - headerField data 14 < headerField data 18) :
    Refused data (.truncated .graphics (headerField data 18)
      (data.length - headerSize - headerField data 14))

-- What the header and the sections of bytes say, as far as they reach.
def contents (data : Bytes) : Cartridge where
  entry := UInt32.ofNat (headerField data 10)
  code := (data.drop headerSize).take (headerField data 14)
  graphics := ((data.drop headerSize).drop (headerField data 14)).take (headerField data 18)

section Reading

variable {data : Bytes} {error : CartridgeError}

theorem take_magic_eq_iff (data : Bytes) : data.take magic.length = magic ↔ magic <+: data := by
  rw [List.prefix_iff_eq_take, eq_comm]

theorem complete_or_refused (data : Bytes) : Complete data ∨ ∃ error, Refused data error := by
  by_cases hsignature : magic <+: data
  · by_cases hheader : headerSize ≤ data.length
    · by_cases hcode : headerField data 14 ≤ data.length - headerSize
      · by_cases hgraphics : headerField data 18 ≤
            data.length - headerSize - headerField data 14
        · exact .inl ⟨hsignature, hheader, by omega⟩
        · exact .inr ⟨_, .graphics hsignature hheader hcode (Nat.lt_of_not_le hgraphics)⟩
      · exact .inr ⟨_, .code hsignature hheader (Nat.lt_of_not_le hcode)⟩
    · exact .inr ⟨_, .header hsignature (Nat.lt_of_not_le hheader)⟩
  · exact .inr ⟨_, .signature hsignature⟩

-- Behind the header, what is left is counted.
theorem ofBytes_of_header (hsignature : magic <+: data) (hheader : headerSize ≤ data.length) :
    ofBytes data =
      if data.length - headerSize < headerField data 14 then
        .error (.truncated .code (headerField data 14) (data.length - headerSize))
      else if data.length - headerSize - headerField data 14 < headerField data 18 then
        .error (.truncated .graphics (headerField data 18)
          (data.length - headerSize - headerField data 14))
      else .ok (contents data) := by
  rw [ofBytes, if_neg (not_not_intro ((take_magic_eq_iff data).mpr hsignature)),
    if_neg (Nat.not_lt.mpr hheader)]
  dsimp only
  rw [List.length_drop, List.length_drop, List.length_drop]
  rfl

theorem Complete.ofBytes_eq (h : Complete data) : ofBytes data = .ok (contents data) := by
  have hsections := h.sections
  rw [ofBytes_of_header h.signature h.header, if_neg (by omega), if_neg (by omega)]

theorem Refused.ofBytes_eq (h : Refused data error) : ofBytes data = .error error := by
  cases h with
  | signature h =>
    have htake : data.take magic.length ≠ magic := fun same => h ((take_magic_eq_iff data).mp same)
    rw [ofBytes, if_pos htake]
  | header hsignature h =>
    have htake := (take_magic_eq_iff data).mpr hsignature
    rw [ofBytes, if_neg (not_not_intro htake), if_pos h]
  | code hsignature hheader h => rw [ofBytes_of_header hsignature hheader, if_pos h]
  | graphics hsignature hheader hcode h =>
    rw [ofBytes_of_header hsignature hheader, if_neg (Nat.not_lt.mpr hcode), if_pos h]

theorem Complete.replace_eq (h : Complete data) (previous : Cartridge) :
    previous.replace data = (contents data, none) := by
  rw [replace, h.ofBytes_eq]

theorem Refused.replace_eq (h : Refused data error) (previous : Cartridge) :
    previous.replace data = (previous, some error) := by
  rw [replace, h.ofBytes_eq]

theorem replace_accepts_iff (previous : Cartridge) (data : Bytes) :
    (previous.replace data).2 = none ↔ Complete data := by
  refine ⟨fun h => ?_, fun h => by rw [h.replace_eq]⟩
  rcases complete_or_refused data with hcomplete | ⟨error, hrefused⟩
  · exact hcomplete
  · rw [hrefused.replace_eq] at h
    cases h

theorem replace_refuses_iff (previous : Cartridge) (data : Bytes) (error : CartridgeError) :
    (previous.replace data).2 = some error ↔ Refused data error := by
  refine ⟨fun h => ?_, fun h => by rw [h.replace_eq]⟩
  rcases complete_or_refused data with hcomplete | ⟨found, hrefused⟩
  · rw [hcomplete.replace_eq] at h
    cases h
  · rw [hrefused.replace_eq] at h
    exact Option.some.inj h ▸ hrefused

end Reading

section Writing

variable {data : Bytes}

theorem headerField_le (data : Bytes) (offset : Nat) : headerField data offset ≤ maxSection := by
  have hlength : ((data.drop offset).take 4).length ≤ 4 := List.length_take_le _ _
  have hpower : 256 ^ ((data.drop offset).take 4).length ≤ 256 ^ 4 :=
    Nat.pow_le_pow_right (by decide) hlength
  exact Nat.le_of_lt_succ (Nat.lt_of_lt_of_le (Bytes.toNat_lt _) hpower)

theorem littleEndian_headerField {offset : Nat} (h : offset + 4 ≤ data.length) :
    Bytes.littleEndian 4 (headerField data offset) = (data.drop offset).take 4 := by
  have hlength : ((data.drop offset).take 4).length = 4 := by
    rw [List.length_take, List.length_drop]
    omega
  have hback := Bytes.littleEndian_toNat ((data.drop offset).take 4)
  rw [hlength] at hback
  exact hback

namespace Complete

theorem length_code (h : Complete data) : (contents data).code.length = headerField data 14 := by
  have hsections := h.sections
  rw [contents, List.length_take, List.length_drop]
  omega

theorem length_graphics (h : Complete data) :
    (contents data).graphics.length = headerField data 18 := by
  have hsections := h.sections
  rw [contents, List.length_take, List.length_drop, List.length_drop]
  omega

-- The fields of the header are written back where they were read.
theorem header_contents (h : Complete data) :
    (contents data).header = data.take headerSize := by
  have hlength : 22 ≤ data.length := h.header
  have hentry : (contents data).entry.toNat = headerField data 10 := by
    rw [contents, UInt32.toNat_ofNat']
    exact Nat.mod_eq_of_lt (Nat.lt_succ_of_le (headerField_le data 10))
  have hfields : data.take 22 = data.take 10 ++ (data.drop 10).take 4 ++ (data.drop 14).take 4 ++
      (data.drop 18).take 4 := by
    rw [← List.take_add, ← List.take_add, ← List.take_add]
  have hmagic : data.take 10 = magic := (take_magic_eq_iff data).mpr h.signature
  rw [Cartridge.header, hentry, h.length_code, h.length_graphics,
    littleEndian_headerField (by omega), littleEndian_headerField (by omega),
    littleEndian_headerField (by omega), ← hmagic]
  exact hfields.symm

-- Writing what was read gives the bytes that it was read from, and none of those
-- behind them.
theorem toBytes_contents (h : Complete data) :
    (contents data).toBytes =
      .ok (data.take (headerSize + headerField data 14 + headerField data 18)) := by
  have hcode : (contents data).code.length ≤ maxSection := h.length_code ▸ headerField_le data 14
  have hgraphics : (contents data).graphics.length ≤ maxSection :=
    h.length_graphics ▸ headerField_le data 18
  rw [toBytes_eq hcode hgraphics, h.header_contents, List.take_add, List.take_add, ← List.drop_drop,
    List.append_assoc]
  rfl

theorem take_eq_of_contents_eq {other : Bytes} (h : Complete data) (hother : Complete other)
    (hsame : contents other = contents data) :
    other.take (headerSize + headerField other 14 + headerField other 18) =
      data.take (headerSize + headerField data 14 + headerField data 18) := by
  have hbytes := hother.toBytes_contents
  rw [hsame, h.toBytes_contents] at hbytes
  exact (Except.ok.inj hbytes).symm

end Complete

end Writing

theorem receive_whole (previous : Cartridge) (data : Bytes) :
    previous.receive (.whole data) =
      ((previous.replace data).1, data.length, (previous.replace data).2.map .malformed) := by
  simp only [receive, Stream.whole]
  rcases previous.replace data with ⟨next, _ | error⟩ <;> rfl

-- Bytes replace a cartridge exactly if they start with a complete one, and it is
-- written as they are. If they do not, or if they cannot all be read, the cartridge
-- stays.
theorem replace_exact (previous : Cartridge) (data : Bytes) :
    let total := headerSize + headerField data 14 + headerField data 18
    let result := previous.replace data
    (result.2 = none ↔ magic <+: data ∧ headerSize ≤ data.length ∧
      headerField data 14 + headerField data 18 ≤ data.length - headerSize) ∧
    (result.2 = none → result.1.toBytes = .ok (data.take total) ∧
      ∀ (other : Cartridge) (input : Bytes), other.replace input = (result.1, none) →
        input.take (headerSize + headerField input 14 + headerField input 18) =
          data.take total) ∧
    (∀ error, result.2 = some error ↔ Refused data error) ∧
    (∀ error, result.2 = some error → result.1 = previous) ∧
    (∀ (source : Stream) (error : ReadError), source.failure = some error →
      previous.receive source = (previous, source.bytes.length, some (.unreadable error))) ∧
    previous.receive (.whole data) = (result.1, data.length, result.2.map .malformed) := by
  intro total result
  refine ⟨?_, ?_, replace_refuses_iff previous data, ?_, ?_, receive_whole previous data⟩
  · rw [replace_accepts_iff]
    exact ⟨fun h => ⟨h.signature, h.header, h.sections⟩, fun h => ⟨h.1, h.2.1, h.2.2⟩⟩
  · intro haccepted
    have hcomplete := (replace_accepts_iff previous data).mp haccepted
    rw [show result = _ from hcomplete.replace_eq previous]
    refine ⟨hcomplete.toBytes_contents, fun other input hinput => ?_⟩
    have hagain : Complete input := (replace_accepts_iff other input).mp (by rw [hinput])
    exact hcomplete.take_eq_of_contents_eq hagain
      (Prod.mk.inj ((hagain.replace_eq other).symm.trans hinput)).1
  · intro error hfailed
    have hrefused := (replace_refuses_iff previous data error).mp hfailed
    rw [show result = _ from hrefused.replace_eq previous]
  · intro source error hfailure
    rw [receive, hfailure]

-- Sizes whose sum needs more than 32 bits are still too large.
example : (empty.replace (magic ++ [0x00, 0x00, 0x00, 0x00, 0xFF, 0xFF, 0xFF, 0xFF, 0x01, 0x00,
    0x00, 0x00])).2 = some (.truncated .code 0xFFFFFFFF 0) := by
  decide

end TileConsole.Cartridge
