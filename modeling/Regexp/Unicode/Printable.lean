import Regexp.CharSet.RunText

/-!
# Characters that cannot be shown

Two sets of Unicode 17.0 that decide how a character is written in quoted text.

## Main definitions

* `Printable.extenders` — the characters that join the one before them to a
  grapheme.
* `Printable.hidden` — the characters without a visible form.
-/

namespace Regexp.Printable

/-- The characters with the property Grapheme_Extend but the two halfwidth sound
marks, which have a cell of their own. -/
def extenders : CharSet := .ofRunText "300 6f 112 6 106 2c 0 0 0 1 0 1 0 0 47 a 2f 14 f 0 64 6 1 5 1 1 0 3 22 0 1d 1a 5a a 39 8 8 0 17 3
0 8 0 2 0 4 2a 2 3a 8 29 17 0 1f 36 0 0 0 3 7 3 0 2 6 9 1 1c 0 39 0 0 0 1 3 7 0 8 0 9 1 19 0 1 1
38 0 3 1 3 1 1 2 2 0 1d 1 2 0 a 1 38 0 3 4 0 1 3 0 13 1 15 5 0 0 39 0 0 1 0 3 7 0 6 2 9 1 1d 0 3a
0 0 0 b 0 8 0 27 0 2 0 36 0 0 2 4 2 0 3 6 1 a 1 1c 0 39 0 1 1 0 0 2 2 0 3 6 1 a 1 1b 1 38 1 0 0 1
3 7 0 8 0 9 1 1c 0 47 0 3 0 1 2 0 0 7 0 50 0 1 6 b 7 61 0 1 8 a 6 48 1 1a 0 0 0 0 0 36 d 0 4 0 1 4
a 0 23 8 0 65 3 0 5 0 1 1 1 18 1 3 2 f 3 c 0 1 1 5 0 e 0 2be 2 3b1 3 1b 2 1c 1 1d 1 3f 1 0 6 7 0 1
a 8 0 2c 2 0 0 74 1 21 0 75 2 3 1 8 0 5 2 da 1 1 0 39 0 0 6 0 0 0 0 1 7 5 9 1 0 2f 2d 1 b 13 3 2f
9 3 2 25 8 b 1 1f 3 1 5 37 0 0 1 2 0 0 4 37 7 1 1 97 2 0 c 0 6 3 0 5 0 2 1 c5 3f 20b 0 c2 20 bfd 2
8c 0 5f 1f 229 5 68 1 75d3 3 0 9 1f 1 4f 1 10f 0 2 0 3 0 18 1 4 0 96 1 19 11 c 0 25 7 18 a 0 0 2b
2 2f 0 1 3 1 1 1 0 23 0 42 5 1 1 1 1 b 0 7 0 2e 0 32 0 0 2 1 1 4 1 0 0 29 1 7 0 ed 0 1 0 3 0 472f
0 2e0 f f f 3cc 0 e1 0 94 4 685 2 0 1 4 3 27 2 3 0 a4 1 23c 3 40 4 13c 1 4c 5 45 a 30 3 7a 0 35 e
28 0 1 1 9 2 30 3 1 1 6 0 3c 2 23 4 0 7 3d 0 b 1 33 8 0 0 7 3 1 0 5e 2 1 3 5 0 1 0 9c 0 2 7 14 1
38 1 0 0 0 0 b 0 8 0 d 6 2 4 42 0 1 5 0 0 1 0 0 2 3 2 0 0 d 1 54 7 1 2 0 0 16 0 50 0 1 5 0 0 1 0 0
1 0 1 ea 0 1 3 5 1 0 1 1a 1 54 7 1 0 0 1 69 0 0 0 1 7 64 0 0 0 1 3 0 4 102 8 0 1 f4 0 9 3 3 0 8f 3
1 1 3 0 1f 9 27 5 1 3 7 0 8 5 1 2 2d c 0 1 c5 0 0 2 0 0 c8 6 0 5 0 0 51 15 1 6 0 1 0 1 79 5 2 0 0
1 0 6 0 0 47 1 2 0 0 0 15a 1 a 1 33 4 4 2 16 0 14e4 0 5 e 2cc7 b 2 2 9bf 4 3a 6 417 0 3e 3 50 0 a
1 4caa 1 1260 2d 1 16 21d 4 2 5 7 7 1 6 1d 3 93 2 7ba 36 3 31 7 0 d 0 15 4 0 e 54f 6 0 10 1 6 0 1
0 4 63 0 9f 6 176 0 3c 3 1fb 3 fd 1 f2 0 1 0 6 1 4 0 1d9 6 6c 6 c16d4 5f 7f ef"

/-- The controls, format, private use and unassigned characters, the separators
other than the space, and the Hangul fillers, letters that are blank. -/
def hidden : CharSet := .ofRunText "0 1f 5e 21 b 0 2c9 1 5 3 6 0 0 0 13 0 18c 0 25 1 31 1 2 0 36 7 1a 3 5 10 15 0 bf 0 2f 1 3a 1 64 d
3a 1 30 1 e 0 1b 1 0 0 a 4 1f 6 4a 0 a0 0 7 1 1 1 15 0 6 0 0 2 3 1 8 1 1 1 3 7 0 3 1 0 4 1 18 1 2
0 5 3 1 1 15 0 6 0 1 0 1 0 1 1 0 0 4 3 1 1 2 2 0 6 3 0 0 6 10 9 2 0 8 0 2 0 15 0 6 0 1 0 4 1 9 0 2
0 2 1 0 e 3 1 b 6 6 0 2 0 7 1 1 1 15 0 6 0 1 0 4 1 8 1 1 1 2 6 2 3 1 0 4 1 11 9 1 0 5 2 2 0 3 2 1
0 0 0 1 2 1 2 2 2 b 3 4 2 2 0 3 1 0 5 0 d 14 4 c 0 2 0 16 0 f 1 8 0 2 0 3 6 1 0 2 0 1 1 3 1 9 6 15
0 2 0 16 0 9 0 4 1 8 0 2 0 3 6 1 4 2 0 3 1 9 0 2 b c 0 2 0 32 0 2 0 5 3 f 1 19 0 2 0 11 2 17 0 8 0
0 1 6 2 0 3 5 0 0 0 7 5 9 1 2 b 39 3 1c 24 1 0 0 0 4 0 17 0 0 0 16 1 4 0 0 0 6 0 9 1 3 1f 47 0 23
3 26 0 23 0 e 0 c 24 c5 0 0 4 0 1 8e 1 e7 0 3 1 6 0 0 0 3 1 28 0 3 1 20 0 3 1 6 0 0 0 3 1 e 0 38 0
3 1 42 1 1f 2 19 5 55 1 5 1 27f 0 1b 2 58 6 15 8 17 8 13 b c 0 2 0 1 b 5d 1 9 5 9 5 d 0 a 5 58 6
2a 4 45 9 1e 0 b 3 b 3 0 2 29 1 4 a 2b 3 19 5 a 2 3d 1 40 0 1c 1 a 5 9 5 d 1 2d 1 b 13 4c 0 a5 7
3b 2 e 2 3d 4 2a 1 a 7 2a 4 215 1 5 1 25 1 5 1 7 0 0 0 0 0 0 0 1e 1 34 0 e 0 d 1 5 0 12 1 2 0 8 10
17 7 2e 10 1 1 1a 0 c 2 21 d 20 e 8b 3 299 15 a 14 713 1 17d 4 2c 0 0 4 0 1 37 6 1 d 17 8 6 0 6 0
6 0 6 0 6 0 6 0 6 0 6 0 7d 21 19 0 58 b d5 19 f 0 3e 0 55 1 66 4 2a 0 32 0 29 0 55 8 2f 0 726c 2
36 8 15b 13 b7 7 dc 13 3b 2 9 5 37 7 45 7 b 5 73 a 1d 2 4d 0 a 3 20 0 36 8 d 1 9 1 66 17 1b 9 5 1
5 1 5 8 6 0 6 0 3b 3 7d 1 9 5 2ba3 b 16 3 30 1903 16d 1 69 25 6 b 4 4 19 0 4 0 0 0 1 0 1 0 289 1f
29 5 32 0 12 0 3 3 4 0 86 3 9e 0 1d 2 5 1 5 1 5 1 2 2 6 0 6 c 1 1 b 0 19 0 12 0 1 0 e 1 d 21 7a 4
2 3 2c 2 57 0 c 2 0 2e 2d 81 1c 2 30 e 1b 3 23 8 1d 4 2a 4 1d 0 24 3 d 29 9d 1 9 5 23 3 23 3 27 7
33 a b 0 e 0 6 0 1 0 a 0 e 0 6 0 1 2 33 b 136 8 15 9 7 17 5 0 29 0 8 44 5 1 0 0 2b 0 1 2 0 1 16 0
47 7 8 2f 12 0 1 4 20 2 1a 4 1a 25 37 3 13 1 31 0 1 4 7 0 2 0 1c 1 2 3 9 6 8 6 3f 1f 26 3 b 8 35 2
1c 1 1a 4 19 6 3 b 6 4f 48 36 32 c 32 6 2d 7 9 5 25 2 1c 7 1 cf 1e 0 29 0 2 1 1 f 5 7 8 20 2d 7 29
15 19 25 1b 13 16 8 4d 3 23 8 3d 0 4 c 18 6 9 5 34 0 11 7 26 8 5f 0 13 a 11 0 2e 3d 6 0 0 0 3 0 e
0 a 5 3a 4 9 5 3 0 7 1 1 1 15 0 6 0 1 0 4 0 9 1 1 1 2 1 0 5 0 4 6 1 6 2 4 a 9 0 0 1 0 0 25 0 9 0 0
1 0 0 3 0 9 0 1 7 1 1c 5b 0 4 1d 47 7 9 a5 35 1 25 21 44 a 9 5 c 12 39 5 9 5 13 1b 1a 1 e 3 16 b8
3b 63 52 b 7 1 0 1 7 0 1 0 1d 0 1 1 b 8 9 45 7 1 2d 1 a 1a 47 7 52 c 48 6 9 55 7 57 21 d 9 5 8 0
2c 0 d 9 1c 2 1f 1 15 0 d 48 6 0 1 0 2b 2 0 0 1 0 8 7 9 5 5 0 1 0 24 0 1 0 5 6 9 5 2b 3 9 f5 18 6
10 0 28 2 1c 54 0 e 31 c 39a 65 6e 0 4 a c3 a4b 62 c 42f f 15 9 f9a 4 246 1ab8 39 6c5 238 6 1e 0 9
3 50 0 9 5 1d 1 5 9 45 9 9 0 6 0 14 4 12 1af 39 c5 5a 4 18 1 18 2b 4a 3 38 6 10 3f 4 a 6 8 1cd5 28
1f 60 72 21fc 3 0 6 0 1 0 122 e 0 1c 2 1 0 d 3 7 18b 903 6a 4 c 2 8 6 9 1 3 f5f fc 2 1b3 5 16 e 10
e 2d 1 16 8 73 3b f5 9 26 1 49 7 6f 14 45 79 13 b 13 b 56 8 18 86 54 0 46 0 1 1 0 1 1 1 3 0 b 0 0
0 6 0 40 0 3 1 7 0 6 0 1b 0 3 0 4 0 0 2 6 0 153 1 123 1 2bd e 4 0 e 44f 1e 5 5 d4 6 0 10 1 6 0 1 0
4 4 3d 20 0 6f 2c 2 d 1 9 3 1 13f 1e 10 39 4 0 1cf 29 d5 2a 3 0 bf 1e 0 15 7 1 df 6 0 3 0 1 0 e 0
c4 1 f 28 4b 3 9 3 1 310 43 4b 3c c1 3 0 1a 0 1 0 0 1 0 0 9 0 3 0 0 0 0 5 0 3 0 0 0 0 0 0 2 0 1 0
0 1 0 0 0 0 0 0 0 0 0 0 1 0 0 1 3 0 6 0 3 0 3 0 0 0 9 0 10 4 2 0 4 0 10 33 1 10d 2b 3 63 b e 1 e 0
e 0 24 9 ad 37 1c c 2b 3 8 6 1 d 5 99 3d8 2 10 2 c 2 d9 5 b 3 0 e b 3 37 7 9 5 27 7 1d 1 b 3 1 d 8
26 157 7 d 1 c 2 a 2 38 0 0 3 f 1 b 3 9 6 92 0 66 404 a6df 1f 111d 1 168d 1 1d30 e 26d 9a1 21d 5e1
134a 4 2129 acc85 ef"

end Regexp.Printable
