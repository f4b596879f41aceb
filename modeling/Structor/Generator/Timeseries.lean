import Structor.Range

/-!
# The phoenix time series

Each child writes a slice of one table, row `i` of which is a device at a tick: the
rows are grouped by hour, then by device, then by tick. The slices of the children
do not start at the borders of these groups; together they still cover every device
and tick once.

The columns besides the key come from random walks and samplers. They are a
parameter, a machine that is seeded once for each child.
-/
namespace Structor.Timeseries
variable {σ μ : Type}

def numDays : ℤ := 7 * 8
def recordIntervalSeconds : ℤ := 15
def recordsPerHour : ℤ := Int.fdiv 3600 recordIntervalSeconds
def recordsPerFile : ℤ := 24 * recordsPerHour * numDays
def totalRecords (scale : ℤ) : ℤ := recordsPerHour * numDays * 24 * scale
def totalFiles (scale : ℤ) : ℤ := (totalRecords scale).fdiv recordsPerFile
def oneBlock (scale : ℤ) : ℤ := recordsPerHour * scale

/-- A row of the file: its key, and the other columns. -/
structure Record (μ : Type) where
  deviceId : ℤ
  thisTime : ℤ
  measures : μ

/-- The device and the time of row `i`. -/
def decode (startTimestamp scale i : ℤ) : ℤ × ℤ :=
  let hoursIn := i.fdiv (oneBlock scale)
  let blockOffset := i - hoursIn * oneBlock scale
  let deviceId := blockOffset.fdiv recordsPerHour
  let deviceOffset := blockOffset - deviceId * recordsPerHour
  (deviceId, startTimestamp + hoursIn * 60 * 60 + deviceOffset * recordIntervalSeconds)

/-- The row loop. `draw` gives the other columns of a row, from its index and time. -/
def rowLoop (draw : σ → ℤ → ℤ → μ × σ) (startTimestamp scale : ℤ) : List ℤ → σ → List (Record μ)
  | [], _ => []
  | i :: is, source =>
      let key := decode startTimestamp scale i
      let drawn := draw source i key.2
      ⟨key.1, key.2, drawn.1⟩ :: rowLoop draw startTimestamp scale is drawn.2

/-- The file of a child, or an argument mismatch. `seed` is the state of the sources
after `random.seed` and `faker.seed`. -/
def fakePhoenixTimeseries (seed : ℤ → σ) (draw : σ → ℤ → ℤ → μ × σ) (startTimestamp : ℤ)
    (scale child : ℤ) : Option (List (Record μ)) :=
  let startRows := child * recordsPerFile
  let endRows := (child + 1) * recordsPerFile
  if child ≥ totalFiles scale then none
  else some (rowLoop draw startTimestamp scale (xrange startRows endRows) (seed startRows))

/-- The rows of all children, in order. -/
def dataSet (seed : ℤ → σ) (draw : σ → ℤ → ℤ → μ × σ) (startTimestamp scale : ℤ) :
    List (Record μ) :=
  (List.range scale.toNat).flatMap fun (child : ℕ) =>
    (fakePhoenixTimeseries seed draw startTimestamp scale child).getD []

/-- The primary key of `timeseries_test`. -/
def Record.key (r : Record μ) : ℤ × ℤ := (r.deviceId, r.thisTime)

@[simp] theorem recordsPerHour_eq : recordsPerHour = 240 := rfl
theorem recordsPerFile_eq : recordsPerFile = 322560 := rfl
@[simp] theorem oneBlock_eq (scale : ℤ) : oneBlock scale = 240 * scale := rfl

theorem totalFiles_eq (scale : ℤ) : totalFiles scale = scale := by
  have htotal : totalRecords scale = recordsPerFile * scale := by
    simp [totalRecords, numDays, recordsPerFile_eq]
  rw [totalFiles, htotal]
  exact Int.mul_fdiv_cancel_left scale (by decide)

theorem fakePhoenixTimeseries_of_lt (seed : ℤ → σ) (draw : σ → ℤ → ℤ → μ × σ) (startTimestamp : ℤ)
    {scale child : ℤ} (h : child < scale) :
    fakePhoenixTimeseries seed draw startTimestamp scale child =
      some (rowLoop draw startTimestamp scale
        (xrange (child * recordsPerFile) ((child + 1) * recordsPerFile))
        (seed (child * recordsPerFile))) := by
  have hlt : ¬ child ≥ totalFiles scale := by
    rw [totalFiles_eq]
    omega
  rw [fakePhoenixTimeseries, if_neg hlt]

theorem fakePhoenixTimeseries_of_ge (seed : ℤ → σ) (draw : σ → ℤ → ℤ → μ × σ) (startTimestamp : ℤ)
    {scale child : ℤ} (h : scale ≤ child) :
    fakePhoenixTimeseries seed draw startTimestamp scale child = none := by
  have hge : child ≥ totalFiles scale := by
    rw [totalFiles_eq]
    omega
  rw [fakePhoenixTimeseries, if_pos hge]

theorem map_key_rowLoop (draw : σ → ℤ → ℤ → μ × σ) (startTimestamp scale : ℤ) (is : List ℤ)
    (source : σ) : (rowLoop draw startTimestamp scale is source).map Record.key =
      is.map (decode startTimestamp scale) := by
  induction is generalizing source with
  | nil => rfl
  | cons i is ih => simp [rowLoop, Record.key, ih]

/-- The keys of the data set are those of one range of rows. -/
theorem map_key_dataSet (seed : ℤ → σ) (draw : σ → ℤ → ℤ → μ × σ) (startTimestamp scale : ℤ) :
    (dataSet seed draw startTimestamp scale).map Record.key =
      (xrange 0 (scale.toNat * recordsPerFile)).map (decode startTimestamp scale) := by
  rw [dataSet, List.map_flatMap, ← flatMap_xrange_blocks (by decide), List.map_flatMap]
  refine List.flatMap_congr fun child hchild => ?_
  have hlt : (child : ℤ) < scale := by
    rw [List.mem_range] at hchild
    omega
  rw [fakePhoenixTimeseries_of_lt seed draw startTimestamp hlt, Option.getD_some, map_key_rowLoop]

/-! ## The grid -/

/-- The digits of a row index: hour, device and tick. -/
theorem decode_digits {startTimestamp scale : ℤ} (hs : 1 ≤ scale) (hour device tick : ℤ)
    (hd : 0 ≤ device) (hd' : device < scale) (ht : 0 ≤ tick) (ht' : tick < 240) :
    decode startTimestamp scale (240 * scale * hour + (240 * device + tick)) =
      (device, startTimestamp + 15 * (240 * hour + tick)) := by
  have hour_eq : (240 * scale * hour + (240 * device + tick)).fdiv (240 * scale) = hour := by
    rw [Int.fdiv_eq_ediv_of_nonneg _ (by omega), Int.add_comm,
      Int.add_mul_ediv_left _ _ (by omega), Int.ediv_eq_zero_of_lt (by omega) (by omega)]
    omega
  have hoffset : 240 * scale * hour + (240 * device + tick) - hour * (240 * scale) =
      240 * device + tick := by
    rw [Int.mul_comm hour]
    omega
  have device_eq : (240 * device + tick).fdiv 240 = device := by
    rw [Int.fdiv_eq_ediv_of_nonneg _ (by decide)]
    omega
  simp only [decode, oneBlock_eq, recordsPerHour_eq, hour_eq, hoffset, device_eq,
    recordIntervalSeconds, Prod.mk.injEq, true_and]
  omega

/-- Every row index has digits. -/
theorem exists_digits {scale : ℤ} (hs : 1 ≤ scale) (i : ℤ) : ∃ hour device tick : ℤ,
    i = 240 * scale * hour + (240 * device + tick) ∧ 0 ≤ device ∧ device < scale ∧
      0 ≤ tick ∧ tick < 240 := by
  have hpos : 0 < 240 * scale := by omega
  have hdiv := Int.mul_ediv_add_emod i (240 * scale)
  have hlo := Int.emod_nonneg i (Int.ne_of_gt hpos)
  have hhi := Int.emod_lt_of_pos i hpos
  exact ⟨i / (240 * scale), i % (240 * scale) / 240, i % (240 * scale) % 240, by omega, by omega,
    by omega, by omega, by omega⟩

theorem hour_bounds {scale hour rest : ℤ} (hs : 1 ≤ scale) (hr : 0 ≤ rest)
    (hr' : rest < 240 * scale) :
    0 ≤ 240 * scale * hour + rest ∧ 240 * scale * hour + rest < scale * 322560 ↔
      0 ≤ hour ∧ hour < 1344 := by
  have hpos : 0 < 240 * scale := by omega
  constructor
  · rintro ⟨hlo, hhi⟩
    refine ⟨?_, ?_⟩
    · by_contra hneg
      have hle : 240 * scale * hour ≤ 240 * scale * (-1) :=
        Int.mul_le_mul_of_nonneg_left (by omega) (by omega)
      omega
    · by_contra hge
      have hle : 240 * scale * 1344 ≤ 240 * scale * hour :=
        Int.mul_le_mul_of_nonneg_left (by omega) (by omega)
      omega
  · rintro ⟨hlo, hhi⟩
    have hnonneg : 0 ≤ 240 * scale * hour := Int.mul_nonneg (by omega) hlo
    have hle : 240 * scale * hour ≤ 240 * scale * 1343 :=
      Int.mul_le_mul_of_nonneg_left (by omega) (by omega)
    omega

theorem decode_injective {startTimestamp scale : ℤ} (hs : 1 ≤ scale) :
    Function.Injective (decode startTimestamp scale) := by
  intro i j h
  obtain ⟨hour, device, tick, rfl, hd, hd', ht, ht'⟩ := exists_digits hs i
  obtain ⟨hour', device', tick', rfl, he, he', hu, hu'⟩ := exists_digits hs j
  rw [decode_digits hs _ _ _ hd hd' ht ht', decode_digits hs _ _ _ he he' hu hu',
    Prod.mk.injEq] at h
  obtain ⟨rfl, htime⟩ := h
  obtain ⟨rfl, rfl⟩ : hour = hour' ∧ tick = tick' := by omega
  rfl

theorem mem_map_decode {startTimestamp scale : ℤ} (hs : 1 ≤ scale) {device tickTime : ℤ} :
    (device, tickTime) ∈
        (xrange 0 (scale.toNat * recordsPerFile)).map (decode startTimestamp scale) ↔
      (0 ≤ device ∧ device < scale) ∧
        ∃ m : ℤ, 0 ≤ m ∧ m < 56 * 24 * 240 ∧ tickTime = startTimestamp + 15 * m := by
  have hscale : (scale.toNat : ℤ) = scale := by omega
  simp only [List.mem_map, mem_xrange, recordsPerFile_eq, hscale]
  constructor
  · rintro ⟨i, hi, hkey⟩
    obtain ⟨hour, d, tick, rfl, hd, hd', ht, ht'⟩ := exists_digits hs i
    rw [decode_digits hs _ _ _ hd hd' ht ht', Prod.mk.injEq] at hkey
    have hhour := (hour_bounds hs (by omega) (by omega)).mp hi
    exact ⟨by omega, 240 * hour + tick, by omega, by omega, hkey.2.symm⟩
  · rintro ⟨⟨hd, hd'⟩, m, hm, hm', rfl⟩
    have hdecode : decode startTimestamp scale
          (240 * scale * (m / 240) + (240 * device + m % 240)) =
        (device, startTimestamp + 15 * (240 * (m / 240) + m % 240)) :=
      decode_digits hs _ _ _ hd hd' (by omega) (by omega)
    refine ⟨_, ?_, hdecode.trans ?_⟩
    · exact (hour_bounds hs (by omega) (by omega)).mpr ⟨by omega, by omega⟩
    · rw [Int.mul_ediv_add_emod]

/-- The children of a data set are those below its scale, and their rows have each
device and tick of the grid for key once. -/
theorem dataSet_covers (seed : ℤ → σ) (draw : σ → ℤ → ℤ → μ × σ) (startTimestamp : ℤ)
    {scale : ℤ} (hs : 1 ≤ scale) :
    (∀ child, (fakePhoenixTimeseries seed draw startTimestamp scale child).isSome ↔
      child < scale) ∧
    ((dataSet seed draw startTimestamp scale).map Record.key).Nodup ∧
    ∀ device tickTime, (device, tickTime) ∈
        (dataSet seed draw startTimestamp scale).map Record.key ↔
      (0 ≤ device ∧ device < scale) ∧
        ∃ m : ℤ, 0 ≤ m ∧ m < 56 * 24 * 240 ∧ tickTime = startTimestamp + 15 * m := by
  refine ⟨?_, ?_, ?_⟩
  · intro child
    by_cases hchild : child < scale
    · simp [fakePhoenixTimeseries_of_lt seed draw startTimestamp hchild, hchild]
    · simp [fakePhoenixTimeseries_of_ge seed draw startTimestamp (Int.not_lt.mp hchild), hchild]
  · rw [map_key_dataSet]
    exact (nodup_xrange _ _).map (decode_injective hs)
  · intro device tickTime
    rw [map_key_dataSet]
    exact mem_map_decode hs

/-- Two devices, from the first of January 2016. -/
theorem dataSet_covers_two :
    (∀ child, (fakePhoenixTimeseries (fun _ => ()) (fun _ _ _ => ((), ())) 1451606400 2
      child).isSome ↔ child < 2) ∧
    ((dataSet (fun _ => ()) (fun _ _ _ => ((), ())) 1451606400 2).map Record.key).Nodup ∧
    ∀ device tickTime, (device, tickTime) ∈
        (dataSet (fun _ => ()) (fun _ _ _ => ((), ())) 1451606400 2).map Record.key ↔
      (0 ≤ device ∧ device < 2) ∧
        ∃ m : ℤ, 0 ≤ m ∧ m < 56 * 24 * 240 ∧ tickTime = 1451606400 + 15 * m :=
  dataSet_covers (fun _ => ()) (fun _ _ _ => ((), ())) 1451606400 (by decide)

end Structor.Timeseries
