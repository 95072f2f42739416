/-
Distances on the globe and the box around a circle (`haversine_m` and the box of
`PlaceIndex.search` in `app/infra/place_index.py`).

The box is one of latitudes and longitudes. It takes one hundredth more than the radius, and its
width is that of the parallel nearest to a pole. `mem_searchBox`: no place of the index is left out
that lies within the radius of a point of the globe.
-/

import Mathlib

namespace Yeodam.Infra

open Real

/-- `EARTH_RADIUS_M` -/
noncomputable def earthRadius : ℝ := 6371000

noncomputable def radians (degrees : ℝ) : ℝ := degrees * (π / 180)

noncomputable def degrees (radians : ℝ) : ℝ := radians * (180 / π)

/-- `haversine_m` -/
noncomputable def haversine (lat1 lon1 lat2 lon2 : ℝ) : ℝ :=
  let p1 := radians lat1
  let p2 := radians lat2
  let dp := p2 - p1
  let dl := radians (lon2 - lon1)
  let a := sin (dp / 2) ^ 2 + cos p1 * cos p2 * sin (dl / 2) ^ 2
  2 * earthRadius * arcsin (√a)

/-- `round`, halves to the even number. -/
noncomputable def roundEven (x : ℝ) : Int :=
  if x - ⌊x⌋ < 1 / 2 then ⌊x⌋
  else if 1 / 2 < x - ⌊x⌋ then ⌊x⌋ + 1
  else if 2 ∣ ⌊x⌋ then ⌊x⌋ else ⌊x⌋ + 1

structure Box (K : Type) where
  south : K
  north : K
  west : K
  east : K

/-- The point is in the box, the edges included. -/
def Box.Has {K : Type} [LE K] (box : Box K) (lat lon : K) : Prop :=
  box.south ≤ lat ∧ lat ≤ box.north ∧ box.west ≤ lon ∧ lon ≤ box.east

/-- The box around the circle. -/
noncomputable def searchBox (latitude longitude : ℝ) (radius : Int) : Box ℝ :=
  let dlat := degrees (radius / earthRadius) * 1.01
  let dlon := dlat / max (cos (radians (min (|latitude| + dlat) 89))) 0.01
  ⟨latitude - dlat, latitude + dlat, longitude - dlon, longitude + dlon⟩

/-! ### Sines of small arcs -/

/-- Of two arcs of at most a right angle, the one with the smaller sine is the smaller one. -/
theorem abs_le_of_sq_sin_le {u v : ℝ} (hu : |u| ≤ π / 2) (hv : 0 ≤ v)
    (h : sin u ^ 2 ≤ sin v ^ 2) : |u| ≤ v := by
  by_contra hlt
  rw [not_le] at hlt
  have hsin : sin v < sin |u| := sin_lt_sin_of_lt_of_le_pi_div_two (by linarith) hu hlt
  have hpos : 0 ≤ sin v := sin_nonneg_of_nonneg_of_le_pi hv (by linarith [pi_pos])
  have hsq : sin |u| ^ 2 = sin u ^ 2 := by
    rcases abs_choice u with habs | habs
    · rw [habs]
    · rw [habs, sin_neg, neg_sq]
  have hlt := pow_lt_pow_left₀ hsin hpos two_ne_zero
  linarith

/-- An arc away from the half circle is hardly longer than its sine, where this is small. -/
theorem le_of_sin_le {x s : ℝ} (hx : 0 ≤ x) (hx' : x ≤ radians 156) (h : sin x ≤ s)
    (hs : s ≤ 1 / 250) : x ≤ 1.01 * s := by
  have hpi := pi_pos
  have hpi4 := pi_le_four
  -- The arc is no obtuse one.
  have hacute : x ≤ π / 2 := by
    by_contra hobtuse
    rw [not_le] at hobtuse
    have hjordan := mul_le_sin (x := π - x) (by unfold radians at hx'; linarith) (by linarith)
    rw [sin_pi_sub] at hjordan
    have hrest : π / 180 * 24 ≤ π - x := by
      unfold radians at hx'
      linarith
    have hlow : 2 / π * (π / 180 * 24) ≤ 2 / π * (π - x) :=
      mul_le_mul_of_nonneg_left hrest (by positivity)
    rw [show 2 / π * (π / 180 * 24) = 4 / 15 by field_simp; norm_num] at hlow
    linarith
  rcases hx.eq_or_lt with rfl | hpos
  · rw [sin_zero] at h
    linarith
  have hsmall : x ≤ 1 / 100 := by
    have hjordan := mul_le_sin hx hacute
    have hle : 2 / π * x ≤ 1 / 250 := by linarith
    rw [div_mul_eq_mul_div, div_le_iff₀ hpi] at hle
    linarith
  have hcube := sin_gt_sub_cube hpos
  have hsq : x ^ 2 ≤ (1 / 100) ^ 2 := pow_le_pow_left₀ hx hsmall 2
  have hthird : x ^ 3 = x * x ^ 2 := by ring
  have hbound : x * x ^ 2 ≤ x * (1 / 100) ^ 2 := mul_le_mul_of_nonneg_left hsq hx
  linarith

/-! ### The circle is inside its box -/

theorem radians_degrees (x : ℝ) : radians (degrees x) = x := by
  unfold radians degrees
  field_simp

theorem radians_le_radians {x y : ℝ} : radians x ≤ radians y ↔ x ≤ y := by
  unfold radians
  exact mul_le_mul_iff_of_pos_right (by positivity)

theorem abs_radians (x : ℝ) : |radians x| = radians |x| := by
  rw [radians, radians, abs_mul, abs_of_pos (by positivity : 0 < π / 180)]

theorem radians_sub (x y : ℝ) : radians x - radians y = radians (x - y) := by
  unfold radians
  ring

theorem radians_div (x y : ℝ) : radians x / y = radians (x / y) := by
  unfold radians
  ring

theorem radians_mul (x y : ℝ) : radians x * y = radians (x * y) := by
  unfold radians
  ring

theorem radians_nonneg {x : ℝ} (h : 0 ≤ x) : 0 ≤ radians x :=
  mul_nonneg h (by positivity)

theorem radians_90 : radians 90 = π / 2 := by
  unfold radians
  ring

variable {lat lon lat2 lon2 : ℝ} {radius : Int}

/-- The angle of a radius that the index searches is small. -/
theorem angle_le (hradius : 1 ≤ radius ∧ radius ≤ 30000) :
    0 < (radius : ℝ) / earthRadius ∧ degrees (radius / earthRadius) ≤ 0.28 := by
  have hlow : (1 : ℝ) ≤ radius := by exact_mod_cast hradius.1
  have hhigh : (radius : ℝ) ≤ 30000 := by exact_mod_cast hradius.2
  have hpi := pi_gt_d2
  constructor
  · unfold earthRadius
    positivity
  · unfold degrees earthRadius
    rw [div_mul_div_comm, div_le_iff₀ (by positivity)]
    linarith

/-- What a distance within the radius means for the two differences. -/
theorem sq_sin_le_of_haversine_le (hradius : 1 ≤ radius ∧ radius ≤ 30000)
    (h : haversine lat lon lat2 lon2 ≤ radius) :
    sin (radians (lat2 - lat) / 2) ^ 2 +
      cos (radians lat) * cos (radians lat2) * sin (radians (lon2 - lon) / 2) ^ 2 ≤
        sin ((radius : ℝ) / earthRadius / 2) ^ 2 := by
  obtain ⟨hpos, hsmall⟩ := angle_le hradius
  have hangle : (radius : ℝ) / earthRadius ≤ radians 1 := by
    rw [← radians_degrees ((radius : ℝ) / earthRadius), radians_le_radians]
    linarith
  have hone : radians 1 < π / 2 := by
    unfold radians
    linarith [pi_pos]
  unfold haversine at h
  dsimp only at h
  rw [radians_sub] at h
  have harcsin : arcsin (√(sin (radians (lat2 - lat) / 2) ^ 2 +
      cos (radians lat) * cos (radians lat2) * sin (radians (lon2 - lon) / 2) ^ 2)) ≤
        (radius : ℝ) / earthRadius / 2 := by
    rw [div_div, le_div_iff₀ (by unfold earthRadius; positivity)]
    linarith
  rw [arcsin_le_iff_le_sin' ⟨by linarith, by linarith⟩, sqrt_le_iff] at harcsin
  exact harcsin.2

theorem cos_radians_abs (x : ℝ) : cos (radians |x|) = cos (radians x) := by
  rw [← abs_radians, cos_abs]

/-- The cosine of a latitude is at least that of one farther from the equator. -/
theorem cos_radians_le {x y : ℝ} (h : |x| ≤ y) (hy : y ≤ 180) :
    cos (radians y) ≤ cos (radians x) := by
  rw [← cos_radians_abs x]
  refine cos_le_cos_of_nonneg_of_le_pi (radians_nonneg (abs_nonneg x)) ?_ (radians_le_radians.mpr h)
  calc radians y ≤ radians 180 := radians_le_radians.mpr hy
    _ = π := by
        unfold radians
        ring

theorem cos_radians_nonneg {x : ℝ} (h : |x| ≤ 90) : 0 ≤ cos (radians x) := by
  have hcos := cos_radians_le h (by norm_num)
  rwa [radians_90, cos_pi_div_two] at hcos

/-- The latitude is inside the box already without its margin. -/
theorem abs_latitude_le (hradius : 1 ≤ radius ∧ radius ≤ 30000) (hlat : |lat| ≤ 90)
    (hlat2 : 33 ≤ lat2 ∧ lat2 ≤ 38.7) (h : haversine lat lon lat2 lon2 ≤ radius) :
    |lat2 - lat| ≤ degrees (radius / earthRadius) := by
  obtain ⟨hpos, -⟩ := angle_le hradius
  have hcos := cos_radians_nonneg hlat
  have hcos2 : 0 ≤ cos (radians lat2) :=
    cos_radians_nonneg (abs_le.mpr ⟨by linarith, by linarith⟩)
  have hsq := sq_sin_le_of_haversine_le hradius h
  have hlon : 0 ≤ cos (radians lat) * cos (radians lat2) * sin (radians (lon2 - lon) / 2) ^ 2 :=
    mul_nonneg (mul_nonneg hcos hcos2) (sq_nonneg _)
  have hwide : |radians (lat2 - lat) / 2| ≤ π / 2 := by
    rw [radians_div, abs_radians, ← radians_90, radians_le_radians, abs_le]
    obtain ⟨hlow, hhigh⟩ := abs_le.mp hlat
    constructor
    · linarith
    · linarith
  have hhalf := abs_le_of_sq_sin_le hwide (by positivity) (by linarith : _ ≤
    sin ((radius : ℝ) / earthRadius / 2) ^ 2)
  rw [← radians_le_radians, radians_degrees, ← abs_radians]
  rw [abs_div, abs_of_pos (two_pos : (0 : ℝ) < 2)] at hhalf
  linarith

/-- The longitude is inside the box, of which `m` is the cosine of an edge. -/
theorem abs_longitude_le {m : ℝ} (hradius : 1 ≤ radius ∧ radius ≤ 30000) (hlon : |lon| ≤ 180)
    (hlon2 : 124.5 ≤ lon2 ∧ lon2 ≤ 131.9) (hm : 0.7 ≤ m) (hcos : m ≤ cos (radians lat))
    (hcos2 : m ≤ cos (radians lat2)) (h : haversine lat lon lat2 lon2 ≤ radius) :
    |lon2 - lon| ≤ degrees (radius / earthRadius) * 1.01 / m := by
  obtain ⟨hpos, hsmall⟩ := angle_le hradius
  have hmpos : 0 < m := by linarith
  set δ := (radius : ℝ) / earthRadius
  set x := radians (|lon2 - lon| / 2)
  obtain ⟨hwest, heast⟩ := abs_le.mp hlon
  have hx : 0 ≤ x := radians_nonneg (by positivity)
  have hx' : x ≤ radians 156 := by
    rw [radians_le_radians]
    have hwide : |lon2 - lon| ≤ 311.9 := abs_le.mpr ⟨by linarith, by linarith⟩
    linarith
  have hsin : sin (radians (lon2 - lon) / 2) ^ 2 = sin x ^ 2 := by
    have habs : x = |radians (lon2 - lon) / 2| := by
      rw [radians_div, abs_radians, abs_div, abs_of_pos (two_pos : (0 : ℝ) < 2)]
    rw [habs]
    rcases abs_choice (radians (lon2 - lon) / 2) with h | h
    · rw [h]
    · rw [h, sin_neg, neg_sq]
  -- The sine of half the difference, on the parallel of the edge.
  have hsq : (m * sin x) ^ 2 ≤ (δ / 2) ^ 2 := by
    have hbound := sq_sin_le_of_haversine_le hradius h
    rw [hsin] at hbound
    have hdist : m ^ 2 * sin x ^ 2 ≤ cos (radians lat) * cos (radians lat2) * sin x ^ 2 := by
      refine mul_le_mul_of_nonneg_right ?_ (sq_nonneg _)
      rw [sq]
      exact mul_le_mul hcos hcos2 hmpos.le (hmpos.le.trans hcos)
    have hle : sin (δ / 2) ^ 2 ≤ (δ / 2) ^ 2 := by
      refine pow_le_pow_left₀ (sin_nonneg_of_nonneg_of_le_pi (by positivity) ?_)
        (sin_le (by positivity)) 2
      have hangle : δ ≤ radians 180 := by
        rw [← radians_degrees δ, radians_le_radians]
        linarith
      rw [show radians 180 = π by unfold radians; ring] at hangle
      linarith
    rw [mul_pow]
    have hlat := sq_nonneg (sin (radians (lat2 - lat) / 2))
    linarith
  have hle : m * sin x ≤ δ / 2 := (le_abs_self _).trans (abs_le_of_sq_le_sq hsq (by positivity))
  have hangle : δ ≤ 0.005 := by
    have hdeg : δ ≤ radians 0.28 := by
      rw [← radians_degrees δ, radians_le_radians]
      exact hsmall
    have hpi := pi_lt_d2
    unfold radians at hdeg
    linarith
  have hx := le_of_sin_le hx hx' (s := δ / 2 / m) ((le_div_iff₀' hmpos).mpr hle) (by
    rw [div_le_iff₀ hmpos]
    linarith)
  rw [← radians_le_radians]
  calc radians |lon2 - lon| = x * 2 := by rw [radians_mul]; congr 1; ring
    _ ≤ 1.01 * (δ / 2 / m) * 2 := by linarith
    _ = δ * (1.01 / m) := by ring
    _ = radians (degrees δ) * (1.01 / m) := by rw [radians_degrees]
    _ = radians (degrees δ * 1.01 / m) := by rw [radians_mul, mul_div_assoc]

/-- **No place within the radius is left out of the box.** -/
theorem mem_searchBox (hradius : 1 ≤ radius ∧ radius ≤ 30000) (hlat : |lat| ≤ 90)
    (hlon : |lon| ≤ 180) (hlat2 : 33 ≤ lat2 ∧ lat2 ≤ 38.7) (hlon2 : 124.5 ≤ lon2 ∧ lon2 ≤ 131.9)
    (h : haversine lat lon lat2 lon2 ≤ radius) : (searchBox lat lon radius).Has lat2 lon2 := by
  obtain ⟨hpos, hsmall⟩ := angle_le hradius
  have hnonneg : 0 ≤ degrees ((radius : ℝ) / earthRadius) := by
    unfold degrees
    positivity
  have hlatitude := abs_latitude_le hradius hlat hlat2 h
  obtain ⟨hsouth, hnorth⟩ := abs_le.mp hlatitude
  have habs : |lat| ≤ lat2 + degrees (radius / earthRadius) := by
    rw [abs_le]
    constructor
    · linarith
    · linarith
  set dlat := degrees ((radius : ℝ) / earthRadius) * 1.01 with hdlat
  have hedge : |lat| + dlat ≤ 40 := by linarith
  set m := cos (radians (|lat| + dlat))
  have hm : 0.7 ≤ m := by
    have hcos := cos_radians_le (x := |lat| + dlat) (y := 45)
      (abs_le.mpr ⟨by linarith [abs_nonneg lat], by linarith⟩) (by norm_num)
    rw [show radians 45 = π / 4 by unfold radians; ring, cos_pi_div_four] at hcos
    have hroot : (1.4 : ℝ) ≤ √2 := by
      rw [le_sqrt' (by norm_num)]
      norm_num
    linarith
  have hlongitude := abs_longitude_le hradius hlon hlon2 hm
    (cos_radians_le (by linarith) (by linarith))
    (cos_radians_le (by rw [abs_of_nonneg (by linarith)]; linarith [le_abs_self lat])
      (by linarith)) h
  rw [← hdlat] at hlongitude
  have hwidth : max (cos (radians (min (|lat| + dlat) 89))) 0.01 = m := by
    rw [min_eq_left (by linarith), max_eq_left (by linarith)]
  obtain ⟨hwest, heast⟩ := abs_le.mp hlongitude
  unfold searchBox Box.Has
  dsimp only
  rw [← hdlat, hwidth]
  exact ⟨by linarith, by linarith, by linarith, by linarith⟩

end Yeodam.Infra
