import Folio.Text.WordChar

/-!
# Numerals

Characters that stand for numbers: decimal digits, digits in other forms such as
superscripts and circled digits, and all other numerals, letters among them that
stand for a number.
-/

namespace Folio.Text

/-- Digits in a form that is not that of a decimal system. -/
def digitForms : CharSet := ⟨#[
  (178, 179), (185, 185), (4969, 4977), (6618, 6618), (8304, 8304), (8308, 8313), (8320, 8329),
  (9312, 9320), (9332, 9340), (9352, 9360), (9450, 9450), (9461, 9469), (9471, 9471),
  (10102, 10110), (10112, 10120), (10122, 10130), (68160, 68163), (69216, 69224), (69714, 69722),
  (127232, 127242)]⟩

/-- Numerals that are no digits. -/
def otherNumerals : CharSet := ⟨#[
  (188, 190), (2548, 2553), (2930, 2935), (3056, 3058), (3192, 3198), (3416, 3422), (3440, 3448),
  (3882, 3891), (4978, 4988), (5870, 5872), (6128, 6137), (8528, 8578), (8581, 8585),
  (9321, 9331), (9341, 9351), (9361, 9371), (9451, 9460), (9470, 9470), (10111, 10111),
  (10121, 10121), (10131, 10131), (11517, 11517), (12295, 12295), (12321, 12329), (12344, 12346),
  (12690, 12693), (12832, 12841), (12872, 12879), (12881, 12895), (12928, 12937), (12977, 12991),
  (13317, 13317), (13443, 13443), (14378, 14378), (15181, 15181), (19968, 19968), (19971, 19971),
  (19975, 19975), (19977, 19977), (20061, 20061), (20108, 20108), (20116, 20116), (20118, 20118),
  (20159, 20160), (20191, 20191), (20200, 20200), (20237, 20237), (20336, 20336), (20740, 20740),
  (20806, 20806), (20841, 20841), (20843, 20843), (20845, 20845), (21313, 21313), (21315, 21317),
  (21324, 21324), (21441, 21444), (22235, 22235), (22769, 22769), (22777, 22777), (24186, 24186),
  (24318, 24319), (24332, 24334), (24336, 24336), (25342, 25342), (25420, 25420), (26578, 26578),
  (28422, 28422), (29590, 29590), (30334, 30334), (32902, 32902), (33836, 33836), (36014, 36014),
  (36019, 36019), (36144, 36144), (38433, 38433), (38470, 38470), (38476, 38476), (38520, 38520),
  (38646, 38646), (42726, 42735), (43056, 43061), (63851, 63851), (63859, 63859), (63864, 63864),
  (63922, 63922), (63953, 63953), (63955, 63955), (63997, 63997), (65799, 65843), (65856, 65912),
  (65930, 65931), (66273, 66299), (66336, 66339), (66369, 66369), (66378, 66378), (66513, 66517),
  (67672, 67679), (67705, 67711), (67751, 67759), (67835, 67839), (67862, 67867), (68028, 68029),
  (68032, 68047), (68050, 68095), (68164, 68168), (68221, 68222), (68253, 68255), (68331, 68335),
  (68440, 68447), (68472, 68479), (68521, 68527), (68858, 68863), (69225, 69246), (69405, 69414),
  (69457, 69460), (69573, 69579), (69723, 69733), (70113, 70132), (71482, 71483), (71914, 71922),
  (72794, 72812), (73664, 73684), (74752, 74862), (93019, 93025), (93824, 93846),
  (119520, 119539), (119648, 119672), (125127, 125135), (126065, 126123), (126125, 126127),
  (126129, 126132), (126209, 126253), (126255, 126269), (127243, 127244), (131073, 131073),
  (131172, 131172), (131298, 131298), (131361, 131361), (133418, 133418), (133507, 133507),
  (133516, 133516), (133532, 133532), (133866, 133866), (133885, 133885), (133913, 133913),
  (140176, 140176), (141720, 141720), (146203, 146203), (156269, 156269), (194704, 194704)]⟩

/-- A digit in any form. -/
def isDigitForm (c : Char) : Bool :=
  isDecimalDigit c || digitForms.contains c

/-- A character that stands for a number. -/
def isNumeral (c : Char) : Bool :=
  isDigitForm c || otherNumerals.contains c

end Folio.Text
