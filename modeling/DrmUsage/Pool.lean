-- SUMMARY: Shared devices: a pool that holds them, and handles that name them for good.

/-!
# Pools

A pool holds the devices that several parties share, and gives each a handle
when it comes in. No device ever leaves, so a handle stays valid for good
(`get?_insert_of_get?`), whatever else is forgotten about its device.
-/

namespace DrmUsage

/-- Names a device of a pool. -/
structure Handle where
  index : Nat
deriving DecidableEq, Repr, Inhabited

/-- Devices by their handles. None is ever removed. -/
structure Pool (δ : Type) where
  devices : List δ := []

namespace Pool

variable {δ : Type}

/-- The device under a handle. -/
def get? (pool : Pool δ) (h : Handle) : Option δ := pool.devices[h.index]?

/-- The pool with the device under a handle replaced. -/
def set (pool : Pool δ) (h : Handle) (d : δ) : Pool δ := ⟨pool.devices.set h.index d⟩

/-- The pool with the device under a handle changed. -/
def modify (pool : Pool δ) (h : Handle) (f : δ → δ) : Pool δ := ⟨pool.devices.modify h.index f⟩

/-- The handle that the next device will get. -/
def next (pool : Pool δ) : Handle := ⟨pool.devices.length⟩

/-- The pool with one more device, under `next`. -/
def insert (pool : Pool δ) (d : δ) : Pool δ := ⟨pool.devices ++ [d]⟩

/-- Pools are equal if they hold the same devices under all handles. -/
theorem ext_get? {p q : Pool δ} (h : ∀ i, p.get? i = q.get? i) : p = q := by
  cases p; cases q
  congr 1
  exact List.ext_getElem? fun i => h ⟨i⟩

theorem get?_set (pool : Pool δ) (h i : Handle) (d : δ) :
    (pool.set h d).get? i = if h = i then (pool.get? i).map fun _ => d else pool.get? i := by
  cases h; cases i
  simp only [get?, set, List.getElem?_set, Handle.mk.injEq]
  split
  · rename_i e; subst e
    split <;> simp_all
  · rfl

theorem get?_modify (pool : Pool δ) (h i : Handle) (f : δ → δ) :
    (pool.modify h f).get? i = if h = i then (pool.get? i).map f else pool.get? i := by
  cases h; cases i
  simp only [get?, modify, List.getElem?_modify, Handle.mk.injEq]
  split <;> simp

@[simp] theorem get?_insert_next (pool : Pool δ) (d : δ) :
    (pool.insert d).get? pool.next = some d := by
  simp [get?, insert, next]

/-- A new device takes nothing away. -/
theorem get?_insert_of_get? {pool : Pool δ} {h : Handle} {d : δ} (e : δ)
    (hd : pool.get? h = some d) : (pool.insert e).get? h = some d := by
  simp only [get?, insert] at *
  rw [List.getElem?_append_left (List.getElem?_eq_some_iff.mp hd).1, hd]

end Pool

end DrmUsage
