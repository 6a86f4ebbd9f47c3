import AsmLab.Proofs.Machine.ReadBack

/-! Views of the registers, bit by bit. What is read after a write consists of bits of the value where
the view that is read lies inside the view that was written, and of old bits elsewhere. So it is also
for registers that are kept as words in the order of their numbers in machine code, of which views are
read and written by shifting and masking whole words. -/
namespace AsmLab

/-- Whether a bit of a 64-bit register belongs to a view. -/
def Register.Covers (register : Register) (parent : Gpr) (index : Nat) : Prop :=
  register.parent = parent ∧ register.shift ≤ index ∧ index < register.shift + register.size.bits

instance (register : Register) (parent : Gpr) (index : Nat) :
    Decidable (register.Covers parent index) :=
  inferInstanceAs (Decidable (_ ∧ _ ∧ _))

/-- Ones in the low bits of a word. -/
def Size.mask : Size → BitVec 64
  | .quad => BitVec.allOnes 64
  | size => (1#64 <<< size.bits) - 1#64

theorem Size.getLsbD_mask (size : Size) (index : Nat) :
    size.mask.getLsbD index = decide (index < size.bits) := by
  have ones : size.mask = BitVec.ofNat 64 (2 ^ size.bits - 1) := by cases size <;> rfl
  have narrow := size.bits_le
  rw [ones, BitVec.getLsbD_ofNat, Nat.testBit_two_pow_sub_one, ← Bool.decide_and, decide_eq_decide]
  omega

/-- Ones where the view lies in its 64-bit register. -/
def Register.mask (register : Register) : BitVec 64 :=
  register.size.mask <<< register.shift

theorem Register.getLsbD_mask (register : Register) (index : Nat) :
    register.mask.getLsbD index =
      decide (register.shift ≤ index ∧ index < register.shift + register.size.bits) := by
  have inside := register.shift_add_bits_le
  rw [mask, BitVec.getLsbD_shiftLeft, Size.getLsbD_mask, Bool.eq_iff_iff]
  simp only [Bool.and_eq_true, Bool.not_eq_true', decide_eq_true_eq, decide_eq_false_iff_not]
  omega

theorem setWidth_ofInt {narrow wide : Nat} (fits : narrow ≤ wide) (value : Int) :
    (BitVec.ofInt wide value).setWidth narrow = BitVec.ofInt narrow value := by
  have divides : ((2 ^ narrow : Nat) : Int) ∣ (2 ^ wide : Nat) :=
    Int.natCast_dvd_natCast.mpr (Nat.pow_dvd_pow 2 fits)
  rw [← BitVec.toInt_inj, BitVec.toInt_setWidth, BitVec.toNat_ofInt, BitVec.toInt_ofInt,
    Int.toNat_of_nonneg (Int.emod_nonneg _ (by simp)), Int.bmod_def, Int.bmod_def,
    Int.emod_emod_of_dvd _ divides]

namespace RegisterFile

variable (file : RegisterFile) (register written read : Register) (value : Int)

theorem getLsbD_read (index : Nat) : (file.read register).getLsbD index =
    (decide (index < register.size.bits) &&
      (file.get register.parent).getLsbD (register.shift + index)) := by
  have narrow := register.size.bits_le
  rw [RegisterFile.read, view, BitVec.getLsbD_setWidth, BitVec.getLsbD_extractLsb']
  by_cases inside : index < register.size.bits
  · simp [inside, inside.trans_le narrow]
  · simp [inside]

/-- A view takes bits of the value, and all other bits stay. -/
theorem getLsbD_get_write (parent : Gpr) (index : Nat) :
    ((file.write register value).get parent).getLsbD index =
      if register.Covers parent index then (BitVec.ofInt 64 value).getLsbD (index - register.shift)
      else (file.get parent).getLsbD index := by
  split
  · rename_i covered
    obtain ⟨rfl, above, below⟩ := covered
    have room := register.shift_add_bits_le
    have offset : index - register.shift < register.size.bits := by omega
    rw [write, setView, get_set, if_pos rfl, getLsbD_splice _ _ _ _ (below.trans_le room),
      if_pos ⟨above, below⟩, ← setWidth_ofInt register.size.bits_le, BitVec.getLsbD_setWidth,
      decide_eq_true offset, Bool.true_and]
  · rename_i outside
    exact file.getLsbD_setView register _ parent index outside

/-- Each bit of a view comes from the value or is an old one. -/
theorem getLsbD_read_write (index : Nat) : ((file.write written value).read read).getLsbD index =
    if index < read.size.bits ∧ written.Covers read.parent (read.shift + index)
    then (BitVec.ofInt 64 value).getLsbD (read.shift + index - written.shift)
    else (file.read read).getLsbD index := by
  rw [getLsbD_read, getLsbD_get_write, getLsbD_read]
  by_cases inside : index < read.size.bits
  · simp only [inside, decide_true, Bool.true_and, true_and]
  · simp only [inside, decide_false, Bool.false_and, false_and, if_false]

variable {file register written read} in
theorem read_write_of_apart (apart : ∀ index < read.size.bits,
    ¬ written.Covers read.parent (read.shift + index)) :
    (file.write written value).read read = file.read read := by
  apply BitVec.eq_of_getLsbD_eq
  intro index _
  rw [getLsbD_read_write, if_neg fun ⟨inside, covered⟩ => apart index inside covered]

theorem read_write_self :
    (file.write register value).read register = BitVec.ofInt 64 value &&& register.size.mask := by
  apply BitVec.eq_of_getLsbD_eq
  intro index _
  rw [getLsbD_read_write, BitVec.getLsbD_and, Size.getLsbD_mask]
  by_cases inside : index < register.size.bits
  · have covered : register.Covers register.parent (register.shift + index) :=
      ⟨rfl, Nat.le_add_right _ _, Nat.add_lt_add_left inside _⟩
    simp [inside, covered]
  · simp [inside, getLsbD_read]

end RegisterFile

/-- The registers in the order of their numbers in machine code. -/
def Gpr.coded : List Gpr :=
  [rax, rcx, rdx, rbx, rsp, rbp, rsi, rdi, r8, r9, r10, r11, r12, r13, r14, r15]

theorem Gpr.idxOf_coded_lt (register : Gpr) : coded.idxOf register < 16 := by
  cases register <;> decide

def Gpr.code (register : Gpr) : Fin 16 :=
  ⟨coded.idxOf register, idxOf_coded_lt register⟩

def Gpr.ofCode (code : Fin 16) : Gpr :=
  coded[code]

theorem Gpr.ofCode_code (register : Gpr) : ofCode register.code = register := by
  cases register <;> rfl

theorem Gpr.code_ofCode : ∀ code, (ofCode code).code = code := by
  decide

theorem Gpr.code_inj {first second : Gpr} : first.code = second.code ↔ first = second :=
  ⟨fun same => by rw [← ofCode_code first, same, ofCode_code], congrArg code⟩

/-- The 64-bit registers by their numbers in machine code. -/
structure RegisterWords where
  words : Vector (BitVec 64) 16

namespace RegisterWords

def word (file : RegisterWords) (register : Gpr) : BitVec 64 :=
  file.words.get register.code

/-- Shifts the view down and masks what was above it. -/
def read (file : RegisterWords) (register : Register) : BitVec 64 :=
  (file.word register.parent >>> register.shift) &&& register.size.mask

/-- A word of which a view is cleared and takes the low bits of the value. -/
def spliced (whole : BitVec 64) (register : Register) (value : BitVec 64) : BitVec 64 :=
  (whole &&& ~~~register.mask) ||| ((value <<< register.shift) &&& register.mask)

def write (file : RegisterWords) (register : Register) (value : BitVec 64) : RegisterWords :=
  ⟨file.words.set register.parent.code (spliced (file.word register.parent) register value)⟩

theorem ext_word {file other : RegisterWords}
    (same : ∀ register, file.word register = other.word register) : file = other := by
  obtain ⟨words⟩ := file
  obtain ⟨others⟩ := other
  refine congrArg mk (Vector.ext fun index inside => ?_)
  have held := same (Gpr.ofCode ⟨index, inside⟩)
  rwa [word, word, Gpr.code_ofCode, Vector.get_eq_getElem, Vector.get_eq_getElem] at held

theorem word_write (file : RegisterWords) (register : Register) (value : BitVec 64) (read : Gpr) :
    (file.write register value).word read =
      if register.parent = read then spliced (file.word register.parent) register value
      else file.word read := by
  simp [write, word, Vector.get_eq_getElem, Vector.getElem_set, Fin.val_inj, Gpr.code_inj]

end RegisterWords

namespace RegisterFile

/-- The same registers, numbered as in machine code. -/
def words (file : RegisterFile) : RegisterWords :=
  ⟨Vector.ofFn fun code : Fin 16 => file.get (Gpr.ofCode code)⟩

variable (file : RegisterFile) (register : Register) (value : Int)

theorem word_words (parent : Gpr) : file.words.word parent = file.get parent := by
  rw [RegisterWords.word, words, Vector.get_ofFn, Gpr.ofCode_code]

/-- All words are those of some registers. -/
theorem words_surjective : Function.Surjective words := by
  intro file
  refine ⟨⟨Vector.ofFn fun index : Fin 16 => file.word Gpr.all[index]⟩,
    RegisterWords.ext_word fun register => ?_⟩
  have listed : Gpr.all[register.index] = register := by cases register <;> rfl
  rw [word_words, get, Fin.getElem_fin, Vector.getElem_ofFn, Fin.eta, listed]

theorem read_words : file.words.read register = file.read register := by
  apply BitVec.eq_of_getLsbD_eq
  intro index _
  rw [RegisterWords.read, word_words, BitVec.getLsbD_and, BitVec.getLsbD_ushiftRight,
    Size.getLsbD_mask, getLsbD_read, Bool.and_comm]

theorem spliced_get : RegisterWords.spliced (file.get register.parent) register
    (BitVec.ofInt 64 value) = (file.write register value).get register.parent := by
  apply BitVec.eq_of_getLsbD_eq
  intro index inside
  rw [getLsbD_get_write, RegisterWords.spliced, BitVec.getLsbD_or, BitVec.getLsbD_and,
    BitVec.getLsbD_and, BitVec.getLsbD_not, BitVec.getLsbD_shiftLeft, Register.getLsbD_mask]
  by_cases covered : register.Covers register.parent index
  · obtain ⟨_, above, below⟩ := covered
    simp [Register.Covers, inside, above, below]
  · have outside : ¬ (register.shift ≤ index ∧ index < register.shift + register.size.bits) :=
      fun within => covered ⟨rfl, within⟩
    simp only [covered, outside, inside, decide_true, decide_false, Bool.not_false, Bool.and_true,
      Bool.and_false, Bool.or_false, if_false]

theorem write_words : file.words.write register (BitVec.ofInt 64 value) =
    (file.write register value).words := by
  apply RegisterWords.ext_word
  intro parent
  rw [RegisterWords.word_write, word_words, word_words, word_words, spliced_get]
  split
  · rename_i same
    rw [same]
  · rename_i apart
    rw [write, setView, get_set, if_neg apart]

/-- Whatever is written to a view, any view that is read then has the bits of the value where it lies
inside the view that was written, and its old bits elsewhere. So a view of another register is as it
was, and so is one that shares no bit; the view that was written holds the value, masked to its
width; and no bit of any 64-bit register changes outside of it. Words that are shifted and masked give
the same, and all words there can be are those of some registers. -/
theorem read_write_bitwise (file : RegisterFile) (written read : Register) (value : Int) :
    let after := file.write written value
    let word := BitVec.ofInt 64 value
    (∀ index, (after.read read).getLsbD index =
      if index < read.size.bits ∧ written.Covers read.parent (read.shift + index)
      then word.getLsbD (read.shift + index - written.shift)
      else (file.read read).getLsbD index) ∧
    (written.parent ≠ read.parent → after.read read = file.read read) ∧
    ((∀ index, ¬ (written.Covers read.parent index ∧ read.Covers read.parent index)) →
      after.read read = file.read read) ∧
    after.read written = word &&& written.size.mask ∧
    (∀ parent index, ¬ written.Covers parent index →
      (after.read parent.full).getLsbD index = (file.read parent.full).getLsbD index) ∧
    file.words.write written word = after.words ∧ after.words.read read = after.read read ∧
    Function.Surjective words := by
  intro after word
  refine ⟨file.getLsbD_read_write written read value, fun apart => ?_, fun apart => ?_,
    file.read_write_self written value, fun parent index outside => ?_,
    file.write_words written value, after.read_words read, words_surjective⟩
  · exact read_write_of_apart value fun index _ covered => apart covered.1
  · refine read_write_of_apart value fun index inside covered => apart _ ⟨covered, rfl, ?_, ?_⟩
    · exact Nat.le_add_right _ _
    · exact Nat.add_lt_add_left inside _
  · have bit := file.getLsbD_read_write written parent.full value index
    have start : parent.full.shift + index = index := Nat.zero_add index
    rw [bit, start, if_neg fun ⟨_, covered⟩ => outside covered]

/-- A number that is too wide for it, written to the second byte of a register. -/
theorem read_write_bitwise_high :
    let file := zero.write Gpr.rbx.full 0x1122334455667788
    let after := file.write (.high .bh) 0x1FF
    after.read Gpr.rbx.full = 0x112233445566FF88 ∧
      after.read (.high .bh) = 0x1FF &&& Size.byte.mask ∧
      after.read (.low .rbx .byte) = file.read (.low .rbx .byte) ∧
      after.read Gpr.rcx.full = file.read Gpr.rcx.full ∧
      (after.read Gpr.rbx.full).getLsbD 16 = (file.read Gpr.rbx.full).getLsbD 16 := by
  intro file after
  obtain ⟨_, _, apart, self, outside, _⟩ :=
    read_write_bitwise file (.high .bh) (.low .rbx .byte) 0x1FF
  obtain ⟨_, other, _⟩ := read_write_bitwise file (.high .bh) Gpr.rcx.full 0x1FF
  refine ⟨by decide +kernel, self, apart ?_, other (by decide), outside .rbx 16 (by decide)⟩
  rintro index ⟨⟨_, above, _⟩, _, _, below⟩
  have past : 8 ≤ index := above
  have short : index < 0 + 8 := below
  omega

end RegisterFile

end AsmLab
