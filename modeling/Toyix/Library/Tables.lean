import Toyix.Library.Bytes

/-!
# Pages of 1024 words

A page is 4096 bytes at an address that is a multiple of 4096; its words are
numbered from 0 to 1023. Words of different pages, and different words of one
page, do not meet. Besides single stores there are two bulk stores: clearing a
page and storing a run of words at once.
-/

namespace Library.Memory

variable {page index : Nat} {memory other : Memory} {value page' index' : Nat}

/-- Word `index` of the page at `page`. -/
def word (memory : Memory) (page index : Nat) : Nat := memory.read32 (page + 4 * index)

/-- Store word `index` of the page at `page`. -/
def setWord (memory : Memory) (page index value : Nat) : Memory :=
  memory.write32 (page + 4 * index) value

/-- Store `count` words from `address` on; word `i` is `value i`. -/
def writeWords (memory : Memory) (address count : Nat) (value : Nat → Nat) : Memory where
  byte x :=
    if address ≤ x ∧ x < address + 4 * count then
      UInt8.ofNat (value ((x - address) / 4) / 2 ^ (8 * ((x - address) % 4)))
    else memory.byte x

/-- Clear a page. -/
def clearPage (memory : Memory) (page : Nat) : Memory := memory.fill page 4096 0

theorem word_lt (memory : Memory) (page index : Nat) : memory.word page index < 2 ^ 32 :=
  read32_lt memory _

/-- A word is determined by the bytes of its page. -/
theorem word_congr (inside : index < 1024)
    (same : ∀ x, page ≤ x → x < page + 4096 → other.byte x = memory.byte x) :
    other.word page index = memory.word page index :=
  read32_congr fun x low high => same x (by omega) (by omega)

/-- Reading a word after storing one. -/
theorem word_setWord (memory : Memory) (aligned : page % 4096 = 0) (aligned' : page' % 4096 = 0)
    (inside : index < 1024) (inside' : index' < 1024) (bounded : value < 2 ^ 32) :
    (memory.setWord page index value).word page' index' =
      if page' = page ∧ index' = index then value else memory.word page' index' := by
  by_cases same : page' = page ∧ index' = index
  · obtain ⟨rfl, rfl⟩ := same
    simp only [and_self, ↓reduceIte]
    exact read32_write32 memory _ value bounded
  · simp only [same, ↓reduceIte]
    exact read32_write32_of_disjoint memory _ value _ (by omega)

/-- Storing a word changes bytes of its page only. -/
theorem setWord_byte (memory : Memory) {x : Nat} (inside : index < 1024)
    (outside : x < page ∨ page + 4096 ≤ x) :
    (memory.setWord page index value).byte x = memory.byte x :=
  write32_apply_outside memory _ value x (by omega)

/-- Reading a word after clearing a page. -/
theorem word_clearPage (memory : Memory) (aligned : page % 4096 = 0) (aligned' : page' % 4096 = 0)
    (inside' : index' < 1024) :
    (memory.clearPage page).word page' index' = if page' = page then 0 else memory.word page' index' := by
  by_cases same : page' = page
  · subst same
    simp only [↓reduceIte, word, read32, clearPage]
    rw [fill_apply_inside _ _ _ _ _ (by omega) (by omega),
      fill_apply_inside _ _ _ _ _ (by omega) (by omega),
      fill_apply_inside _ _ _ _ _ (by omega) (by omega),
      fill_apply_inside _ _ _ _ _ (by omega) (by omega)]
    rfl
  · simp only [same, ↓reduceIte]
    exact read32_fill_of_disjoint memory page 4096 0 _ (by omega)

/-- Clearing a page changes its bytes only. -/
theorem clearPage_byte (memory : Memory) {x : Nat} (outside : x < page ∨ page + 4096 ≤ x) :
    (memory.clearPage page).byte x = memory.byte x :=
  fill_apply_outside memory page 4096 0 x outside

/-- Storing words changes their bytes only. -/
theorem writeWords_byte (memory : Memory) {address count x : Nat} (value : Nat → Nat)
    (outside : x < address ∨ address + 4 * count ≤ x) :
    (memory.writeWords address count value).byte x = memory.byte x := by
  have missed : ¬ (address ≤ x ∧ x < address + 4 * count) := by omega
  simp [writeWords, missed]

/-- A stored word is read back. -/
theorem read32_writeWords (memory : Memory) {address count : Nat} (value : Nat → Nat)
    (inside : index < count) (bounded : value index < 2 ^ 32) :
    (memory.writeWords address count value).read32 (address + 4 * index) = value index := by
  have byteAt : ∀ offset, offset < 4 →
      (memory.writeWords address count value).byte (address + 4 * index + offset) =
        UInt8.ofNat (value index / 2 ^ (8 * offset)) := by
    intro offset small
    have inRange : address ≤ address + 4 * index + offset ∧
        address + 4 * index + offset < address + 4 * count := by omega
    have quotient : (address + 4 * index + offset - address) / 4 = index := by omega
    have remainder : (address + 4 * index + offset - address) % 4 = offset := by omega
    simp only [writeWords, inRange, and_self, ↓reduceIte, quotient, remainder]
  have b0 := byteAt 0 (by decide)
  have b1 := byteAt 1 (by decide)
  have b2 := byteAt 2 (by decide)
  have b3 := byteAt 3 (by decide)
  rw [Nat.add_zero] at b0
  simp only [read32, b0, b1, b2, b3, UInt8.toNat_ofNat']
  omega

/-- Reading a word after storing a run of words of a page. -/
theorem word_writeWords (memory : Memory) (first count : Nat) (value : Nat → Nat)
    (aligned : page % 4096 = 0) (aligned' : page' % 4096 = 0) (inside : first + count ≤ 1024)
    (inside' : index' < 1024) (bounded : ∀ i < count, value i < 2 ^ 32) :
    (memory.writeWords (page + 4 * first) count value).word page' index' =
      if page' = page ∧ first ≤ index' ∧ index' < first + count then value (index' - first)
      else memory.word page' index' := by
  by_cases covered : page' = page ∧ first ≤ index' ∧ index' < first + count
  · obtain ⟨rfl, low, high⟩ := covered
    have position : page' + 4 * index' = page' + 4 * first + 4 * (index' - first) := by omega
    simp only [low, high, and_self, ↓reduceIte]
    rw [word, position]
    exact read32_writeWords memory value (by omega) (bounded _ (by omega))
  · simp only [covered, ↓reduceIte]
    refine read32_congr ?_
    intro x low high
    exact writeWords_byte memory value (by omega)

/-! ## Pages that two memories share -/

/-- Two memories have the same bytes in a page. -/
def SamePage (memory other : Memory) (page : Nat) : Prop :=
  ∀ x, page ≤ x → x < page + 4096 → other.byte x = memory.byte x

theorem SamePage.refl (memory : Memory) (page : Nat) : memory.SamePage memory page :=
  fun _ _ _ => rfl

theorem SamePage.trans {third : Memory} (first : memory.SamePage other page)
    (second : other.SamePage third page) : memory.SamePage third page :=
  fun x low high => (second x low high).trans (first x low high)

theorem SamePage.word (same : memory.SamePage other page) (inside : index < 1024) :
    other.word page index = memory.word page index :=
  word_congr inside same

/-- Storing a word keeps every other page. -/
theorem samePage_setWord (memory : Memory) {target : Nat} (aligned : page % 4096 = 0)
    (aligned' : target % 4096 = 0) (inside : index < 1024) (different : page ≠ target) :
    memory.SamePage (memory.setWord target index value) page := by
  intro x low high
  exact setWord_byte memory inside (by omega)

/-- Clearing a page keeps every other page. -/
theorem samePage_clearPage (memory : Memory) {target : Nat} (aligned : page % 4096 = 0)
    (aligned' : target % 4096 = 0) (different : page ≠ target) :
    memory.SamePage (memory.clearPage target) page := by
  intro x low high
  exact clearPage_byte memory (by omega)

end Library.Memory
