import Nx.Bytes

/-!
The ledger of an allocator that cuts runs of memory into chunks. Chunks belong to classes, and a
class has one size.
-/

namespace Nx.ChunkLedgers

open Bytes Function

structure Ledger (Class : Type) where
  free : Class → List Nat
  given : List Area
  runs : List Area

variable {Class : Type}

def chunkAreas (size : Class → Nat) (kind : Class) (starts : List Nat) : List Area :=
  starts.map fun start => ⟨start, size kind⟩

@[simp] theorem covers_chunkAreas_cons (size : Class → Nat) (kind : Class) (start : Nat)
    (rest : List Nat)
    (byte : Nat) : covers (chunkAreas size kind (start :: rest)) byte =
      covers (chunkAreas size kind rest) byte + one ⟨start, size kind⟩ byte :=
  covers_cons _ _ byte

def Ledger.setFree [DecidableEq Class] (ledger : Ledger Class) (kind : Class) (starts : List Nat) :
    Ledger Class :=
  { ledger with free := update ledger.free kind starts }

variable [Fintype Class]

def Ledger.owners (size : Class → Nat) (ledger : Ledger Class) (byte : Nat) : Nat :=
  (∑ kind, covers (chunkAreas size kind (ledger.free kind)) byte) + covers ledger.given byte

open Ledger (owners)

structure Balances (size : Class → Nat) (ledger : Ledger Class) : Prop where
  owned : ∀ byte, ledger.owners size byte ≤ covers ledger.runs byte
  single : ∀ byte, covers ledger.runs byte ≤ 1

def Window (size : Class → Nat) (ledger : Ledger Class) (start stop : Nat) : Prop :=
  ∀ byte, start ≤ byte → byte < stop → ledger.owners size byte = 0 ∧ 0 < covers ledger.runs byte

/-! ## What is owned -/

theorem owners_give (size : Class → Nat) (ledger : Ledger Class) (area : Area) (rest : List Area)
    (byte : Nat) :
    owners size { ledger with given := area :: rest } byte = owners size
    { ledger with given := rest } byte + one area byte := by
  simp only [owners, covers_cons]
  omega

theorem owners_update [DecidableEq Class] (size : Class → Nat) (ledger : Ledger Class)
    (kind : Class)
    (starts : List Nat) (byte : Nat) :
    (ledger.setFree kind starts).owners size byte + covers
      (chunkAreas size kind (ledger.free kind)) byte =
      ledger.owners size byte + covers (chunkAreas size kind starts) byte := by
  have others : ∑ other ∈ Finset.univ.erase kind,
        covers (chunkAreas size other (update ledger.free kind starts other)) byte =
      ∑ other ∈ Finset.univ.erase kind, covers (chunkAreas size other (ledger.free other))
        byte := by
    apply Finset.sum_congr rfl
    intro other listed
    rw [update_of_ne (Finset.ne_of_mem_erase listed)]
  unfold owners Ledger.setFree
  dsimp only
  rw [← Finset.add_sum_erase _ _ (Finset.mem_univ kind), others, update_self,
    ← Finset.add_sum_erase Finset.univ (fun other =>
      covers (chunkAreas size other (ledger.free other)) byte)
      (Finset.mem_univ kind)]
  omega

variable {size : Class → Nat} {ledger : Ledger Class}

theorem Balances.less {after : Ledger Class} (balanced : Balances size ledger)
    (runs : after.runs = ledger.runs) (less : ∀ byte, after.owners size byte ≤
      ledger.owners size byte) :
    Balances size after where
  owned := fun byte => runs ▸ (less byte).trans (balanced.owned byte)
  single := runs ▸ balanced.single

theorem Balances.perm (balanced : Balances size ledger) (perm : ledger.given.Perm others) :
    Balances size { ledger with given := others } := by
  refine balanced.less rfl fun _ => ?_
  simp only [owners, covers_perm perm]
  exact le_rfl

variable {area run : Area} {rest : List Area} {start : Nat} {kind : Class}

theorem Balances.abandon (ledger : Ledger Class)
    (balanced : Balances size { ledger with given := area :: rest }) :
    Balances size { ledger with given := rest } := by
  refine balanced.less rfl fun byte => ?_
  rw [owners_give]
  exact Nat.le_add_right _ _

/-! ## New runs -/

section

variable (balanced : Balances size ledger) (clear : ∀ byte, run.Holds byte →
  covers ledger.runs byte = 0)
include balanced clear

theorem Balances.grant : Balances size { ledger with runs := run :: ledger.runs } where
  owned := fun byte => by
    have before := balanced.owned byte
    have same : owners size { ledger with runs := run :: ledger.runs } byte =
        ledger.owners size byte := rfl
    rw [same, covers_cons]
    omega
  single := fun byte => by
    rw [covers_cons]
    by_cases inside : run.Holds byte
    · rw [clear byte inside, one_of_holds inside]
    · rw [one, if_neg inside]
      exact balanced.single byte

theorem Balances.window : Window size { ledger with runs := run :: ledger.runs } run.start
    (run.start + run.size) := by
  intro byte above below
  have inside : run.Holds byte := ⟨above, below⟩
  have none := clear byte inside
  have owned := balanced.owned byte
  refine ⟨?_, covers_pos List.mem_cons_self inside⟩
  show ledger.owners size byte = 0
  omega

theorem Balances.grantGiven :
    Balances size { ledger with given := run :: ledger.given, runs := run :: ledger.runs } where
  owned := fun byte => by
    have before := balanced.owned byte
    have more : owners size { ledger with given := run :: ledger.given, runs :=
        run :: ledger.runs } byte =
        ledger.owners size byte + one run byte :=
          owners_give size { ledger with runs := run :: ledger.runs } run ledger.given byte
    rw [more, covers_cons]
    omega
  single := (balanced.grant clear).single

end

theorem Window.grant (window : Window size ledger start stop) (run : Area) :
    Window size { ledger with runs := run :: ledger.runs } start stop := by
  intro byte above below
  have ⟨free, covered⟩ := window byte above below
  refine ⟨free, ?_⟩
  rw [covers_cons]
  omega

/-! ## Chunks -/

section Chunks

variable [DecidableEq Class]

theorem Balances.stock (balanced : Balances size ledger) (window : Window size ledger start stop)
    (room : start + size kind ≤ stop) : Balances size
      (ledger.setFree kind (start :: ledger.free kind)) ∧
    Window size (ledger.setFree kind (start :: ledger.free kind)) (start + size kind) stop := by
  have count : ∀ byte, (ledger.setFree kind (start :: ledger.free kind)).owners size byte =
      ledger.owners size byte + one ⟨start, size kind⟩ byte := by
    intro byte
    have sum := owners_update size ledger kind (start :: ledger.free kind) byte
    rw [covers_chunkAreas_cons] at sum
    omega
  refine ⟨⟨fun byte => ?_, balanced.single⟩, fun byte above below => ?_⟩
  · rw [count]
    by_cases inside : Area.Holds ⟨start, size kind⟩ byte
    · have ⟨free, covered⟩ := window byte inside.1 (lt_of_lt_of_le inside.2 room)
      rw [free, one_of_holds inside]
      exact covered
    · rw [one, if_neg inside]
      exact balanced.owned byte
  · have ⟨free, covered⟩ := window byte (by omega) below
    have outside : ¬ Area.Holds ⟨start, size kind⟩ byte := fun inside =>
      absurd inside.2 (not_lt.mpr above)
    refine ⟨?_, covered⟩
    rw [count, free, one, if_neg outside]

theorem Balances.handOut (balanced : Balances size ledger) {rest : List Nat}
    (free : ledger.free kind = start :: rest) :
    Balances size { ledger.setFree kind rest with given :=
      ⟨start, size kind⟩ :: ledger.given } := by
  refine balanced.less rfl fun byte => ?_
  have sum := owners_update size ledger kind rest byte
  have more : owners size { ledger.setFree kind rest with given :=
      ⟨start, size kind⟩ :: ledger.given } byte =
      (ledger.setFree kind rest).owners size byte + one ⟨start, size kind⟩ byte :=
    owners_give size (ledger.setFree kind rest) _ ledger.given byte
  rw [free, covers_chunkAreas_cons] at sum
  omega

theorem Balances.takeBack (ledger : Ledger Class)
    (balanced : Balances size { ledger with given := ⟨start, size kind⟩ :: rest }) :
    Balances size { ledger.setFree kind (start :: ledger.free kind) with given := rest } := by
  refine balanced.less rfl fun byte => ?_
  have sum := owners_update size { ledger with given := rest } kind (start :: ledger.free kind) byte
  rw [covers_chunkAreas_cons] at sum
  rw [owners_give]
  change owners size { ledger.setFree kind (start :: ledger.free kind) with given := rest } byte +
    covers (chunkAreas size kind (ledger.free kind)) byte = _ at sum
  omega

end Chunks

/-! ## Who has a byte -/

theorem Balances.alone (balanced : Balances size ledger) (given : ledger.given = area :: rest)
    (inside : area.Holds byte) : covers rest byte = 0 := by
  have owned := balanced.owned byte
  have single := balanced.single byte
  unfold owners at owned
  rw [given, covers_cons, one_of_holds inside] at owned
  omega

theorem Balances.in_run (balanced : Balances size ledger) (listed : area ∈ ledger.given)
    (inside : area.Holds byte) : ∃ run ∈ ledger.runs, run.Holds byte := by
  have owned := balanced.owned byte
  have some := covers_pos listed inside
  have covered : covers ledger.runs byte ≠ 0 := by
    unfold owners at owned
    omega
  rw [Ne, covers_eq_zero_iff] at covered
  push Not at covered
  exact covered

end Nx.ChunkLedgers
