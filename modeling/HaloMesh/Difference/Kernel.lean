import HaloMesh.Difference.Window

/-! The finite difference formulas. Each takes a window of values a unit apart and gives
the derivative at the output point in index units. -/

namespace HaloMesh.Kernel

variable {α : Type} [Scalar α]

open Scalar

/-- Keeps the smoothness weights away from division by zero. -/
def smoothnessFloor : α := 1.0e-8

def firstC2 (f : Window α) : α := 0.5 * (f.p - f.m)

def firstC4 (f : Window α) : α := (8 * (f.p - f.m) - f.pp + f.mm) / 12

/-- Weights the one sided and the central estimate by their smoothness. -/
def firstW2 (f : Window α) : α :=
  let dc := 0.5 * (f.p - f.m)
  let dl := f.c - f.m
  let dr := f.p - f.c
  let isl := square dl
  let isr := square dr
  let isc := (13 / 3) * square (f.p - 2 * f.c + f.m) + 0.25 * square (f.p - f.m)
  let al := 0.25 / square (smoothnessFloor + isl)
  let ar := 0.25 / square (smoothnessFloor + isr)
  let ac := 0.5 / square (smoothnessFloor + isc)
  (al * dl + ar * dr + ac * dc) / (al + ar + ac)

/-- The fourth order difference plus a smoothing term in the direction of the value. -/
def firstS2 (f : Window α) : α :=
  (8 * f.p - 8 * f.m + f.mm - f.pp) / 12 +
    sign f.c * (f.pp - 4 * f.p + 6 * f.c - 4 * f.m + f.mm) / 12

def secondC2 (f : Window α) : α := f.p + f.m - 2 * f.c

def secondC4 (f : Window α) : α := (-f.pp + 16 * f.p - 30 * f.c + 16 * f.m - f.mm) / 12

def fourthC2 (f : Window α) : α := f.pp - 4 * f.p + 6 * f.c - 4 * f.m + f.mm

/-- Upwinding takes the differences from the side the velocity comes from. -/
def upwindU1 (vc : α) (f : Window α) : α :=
  if le 0 vc then vc * (f.c - f.m) else vc * (f.p - f.c)

def upwindU2 (vc : α) (f : Window α) : α :=
  if le 0 vc then vc * (1.5 * f.c - 2 * f.m + 0.5 * f.mm)
  else vc * (-0.5 * f.pp + 2 * f.p - 1.5 * f.c)

def upwindU3 (vc : α) (f : Window α) : α :=
  if lt 0 vc then vc * (4 * f.p - 12 * f.m + 2 * f.mm + 6 * f.c) / 12
  else vc * (-4 * f.m + 12 * f.p - 2 * f.pp - 6 * f.c) / 12

def upwindC2 (vc : α) (f : Window α) : α := vc * 0.5 * (f.p - f.m)

def upwindC4 (vc : α) (f : Window α) : α := vc * (8 * (f.p - f.m) - f.pp + f.mm) / 12

/-- The central difference less a third difference on the upwind side, weighted by the
ratio of the smoothness there to the one at the point. -/
def upwindW3 (vc : α) (f : Window α) : α :=
  let here := smoothnessFloor + square (f.p - 2 * f.c + f.m)
  let (r, third) : α × α :=
    if lt 0 vc then
      ((smoothnessFloor + square (f.c - 2 * f.m + f.mm)) / here,
        -f.mm + 3 * f.m - 3 * f.c + f.p)
    else
      ((smoothnessFloor + square (f.pp - 2 * f.p + f.c)) / here,
        -f.m + 3 * f.c - 3 * f.p + f.pp)
  let w := 1 / (1 + 2 * r * r)
  vc * (0.5 * ((f.p - f.m) - w * third))

/-- What a velocity at a cell face carries: the value behind it. -/
def carried (v below above : α) : α := if le 0 v then v * below else v * above

/-- The inflow at the lower face less the outflow at the upper one, with the velocity at
a face the mean of its two cells. -/
def fluxU1 (v f : Window α) : α :=
  -(carried (0.5 * (v.m + v.c)) f.m f.c - carried (0.5 * (v.c + v.p)) f.c f.p)

def fluxC2 (v f : Window α) : α := 0.5 * (v.p * f.p - v.m * f.m)

def fluxC4 (v f : Window α) : α :=
  (8 * (v.p * f.p - v.m * f.m) + v.mm * f.mm - v.pp * f.pp) / 12

def staggeredFirstC2 (f : Window α) : α := f.p - f.m

def staggeredFirstC4 (f : Window α) : α := (27 * (f.p - f.m) - (f.pp - f.mm)) / 24

def staggeredSecondC2 (f : Window α) : α := (f.pp + f.mm - f.p - f.m) / 2

/-- The flux form with the velocity at the faces, less the divergence of the velocity. -/
def staggeredUpwindU1 (v f : Window α) : α :=
  (carried v.m f.m f.c - carried v.p f.c f.p) * -1 - f.c * (v.p - v.m)

def staggeredUpwindC2 (v f : Window α) : α := 0.5 * (v.p + v.m) * 0.5 * (f.p - f.m)

def staggeredFluxU1 (v f : Window α) : α := -(carried v.m f.m f.c - carried v.p f.c f.p)

/-- The fourth order value midway between the two inner ones of four. -/
def midpoint4 (a b c d : α) : α := (9 * (b + c) - (a + d)) / 16

end HaloMesh.Kernel
