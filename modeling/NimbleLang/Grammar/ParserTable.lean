/-!
The phrase rules of Nimble as a transition network, in the integer format that `Network.decode` reads.
The eleven rules are scripts, function definitions, parameters, the main body, bodies, variable blocks,
statement blocks, declarations, statements, expressions and calls.
-/

namespace NimbleLang.Grammar

/-- The parser network in the order of the format: states, rules, modes, sets, edges, decisions. -/
def parserTable : List Int := [
    4, 1, 30, 155, 2, 0, 7, 0, 2, 1, 7, 1, 2, 2, 7, 2, 2, 3, 7, 3, 2, 4, 7, 4, 2, 5, 7, 5, 2, 6, 7, 6, 2, 7, 7,
    7, 2, 8, 7, 8, 2, 9, 7, 9, 2, 10, 7, 10, 1, 0, 5, 0, 24, 8, 0, 10, 0, 12, 0, 27, 9, 0, 1, 0, 1, 0, 1, 0, 1,
    1, 1, 1, 1, 1, 1, 1, 1, 1, 1, 1, 5, 1, 38, 8, 1, 10, 1, 12, 1, 41, 9, 1, 3, 1, 43, 8, 1, 1, 1, 1, 1, 1, 1,
    3, 1, 48, 8, 1, 1, 1, 1, 1, 1, 1, 1, 1, 1, 2, 1, 2, 1, 2, 1, 2, 1, 3, 1, 3, 1, 4, 1, 4, 1, 4, 1, 5, 5, 5,
    64, 8, 5, 10, 5, 12, 5, 67, 9, 5, 1, 6, 5, 6, 70, 8, 6, 10, 6, 12, 6, 73, 9, 6, 1, 7, 1, 7, 1, 7, 1, 7, 1,
    7, 1, 7, 3, 7, 81, 8, 7, 1, 8, 1, 8, 1, 8, 1, 8, 1, 8, 1, 8, 1, 8, 1, 8, 1, 8, 1, 8, 1, 8, 1, 8, 1, 8, 1, 8,
    1, 8, 1, 8, 1, 8, 1, 8, 1, 8, 3, 8, 102, 8, 8, 1, 8, 1, 8, 1, 8, 1, 8, 3, 8, 108, 8, 8, 1, 8, 3, 8, 111, 8,
    8, 1, 9, 1, 9, 1, 9, 1, 9, 1, 9, 1, 9, 1, 9, 1, 9, 1, 9, 1, 9, 1, 9, 1, 9, 3, 9, 125, 8, 9, 1, 9, 1, 9, 1,
    9, 1, 9, 1, 9, 1, 9, 1, 9, 1, 9, 1, 9, 5, 9, 136, 8, 9, 10, 9, 12, 9, 139, 9, 9, 1, 10, 1, 10, 1, 10, 1, 10,
    1, 10, 5, 10, 146, 8, 10, 10, 10, 12, 10, 149, 9, 10, 3, 10, 151, 8, 10, 1, 10, 1, 10, 1, 10, 0, 1, 18, 11,
    0, 2, 4, 6, 8, 10, 12, 14, 16, 18, 20, 0, 4, 1, 0, 16, 17, 1, 0, 18, 19, 2, 0, 17, 17, 20, 20, 1, 0, 21, 23,
    168, 0, 25, 1, 0, 0, 0, 2, 31, 1, 0, 0, 0, 4, 53, 1, 0, 0, 0, 6, 57, 1, 0, 0, 0, 8, 59, 1, 0, 0, 0, 10, 65,
    1, 0, 0, 0, 12, 71, 1, 0, 0, 0, 14, 74, 1, 0, 0, 0, 16, 110, 1, 0, 0, 0, 18, 124, 1, 0, 0, 0, 20, 140, 1, 0,
    0, 0, 22, 24, 3, 2, 1, 0, 23, 22, 1, 0, 0, 0, 24, 27, 1, 0, 0, 0, 25, 23, 1, 0, 0, 0, 25, 26, 1, 0, 0, 0,
    26, 28, 1, 0, 0, 0, 27, 25, 1, 0, 0, 0, 28, 29, 3, 6, 3, 0, 29, 30, 5, 0, 0, 1, 30, 1, 1, 0, 0, 0, 31, 32,
    5, 1, 0, 0, 32, 33, 5, 28, 0, 0, 33, 42, 5, 2, 0, 0, 34, 39, 3, 4, 2, 0, 35, 36, 5, 3, 0, 0, 36, 38, 3, 4,
    2, 0, 37, 35, 1, 0, 0, 0, 38, 41, 1, 0, 0, 0, 39, 37, 1, 0, 0, 0, 39, 40, 1, 0, 0, 0, 40, 43, 1, 0, 0, 0,
    41, 39, 1, 0, 0, 0, 42, 34, 1, 0, 0, 0, 42, 43, 1, 0, 0, 0, 43, 44, 1, 0, 0, 0, 44, 47, 5, 4, 0, 0, 45, 46,
    5, 5, 0, 0, 46, 48, 5, 26, 0, 0, 47, 45, 1, 0, 0, 0, 47, 48, 1, 0, 0, 0, 48, 49, 1, 0, 0, 0, 49, 50, 5, 6,
    0, 0, 50, 51, 3, 8, 4, 0, 51, 52, 5, 7, 0, 0, 52, 3, 1, 0, 0, 0, 53, 54, 5, 28, 0, 0, 54, 55, 5, 8, 0, 0,
    55, 56, 5, 26, 0, 0, 56, 5, 1, 0, 0, 0, 57, 58, 3, 8, 4, 0, 58, 7, 1, 0, 0, 0, 59, 60, 3, 10, 5, 0, 60, 61,
    3, 12, 6, 0, 61, 9, 1, 0, 0, 0, 62, 64, 3, 14, 7, 0, 63, 62, 1, 0, 0, 0, 64, 67, 1, 0, 0, 0, 65, 63, 1, 0,
    0, 0, 65, 66, 1, 0, 0, 0, 66, 11, 1, 0, 0, 0, 67, 65, 1, 0, 0, 0, 68, 70, 3, 16, 8, 0, 69, 68, 1, 0, 0, 0,
    70, 73, 1, 0, 0, 0, 71, 69, 1, 0, 0, 0, 71, 72, 1, 0, 0, 0, 72, 13, 1, 0, 0, 0, 73, 71, 1, 0, 0, 0, 74, 75,
    5, 9, 0, 0, 75, 76, 5, 28, 0, 0, 76, 77, 5, 8, 0, 0, 77, 80, 5, 26, 0, 0, 78, 79, 5, 10, 0, 0, 79, 81, 3,
    18, 9, 0, 80, 78, 1, 0, 0, 0, 80, 81, 1, 0, 0, 0, 81, 15, 1, 0, 0, 0, 82, 83, 5, 28, 0, 0, 83, 84, 5, 10, 0,
    0, 84, 111, 3, 18, 9, 0, 85, 86, 5, 11, 0, 0, 86, 87, 3, 18, 9, 0, 87, 88, 5, 6, 0, 0, 88, 89, 3, 12, 6, 0,
    89, 90, 5, 7, 0, 0, 90, 111, 1, 0, 0, 0, 91, 92, 5, 12, 0, 0, 92, 93, 3, 18, 9, 0, 93, 94, 5, 6, 0, 0, 94,
    95, 3, 12, 6, 0, 95, 101, 5, 7, 0, 0, 96, 97, 5, 13, 0, 0, 97, 98, 5, 6, 0, 0, 98, 99, 3, 12, 6, 0, 99, 100,
    5, 7, 0, 0, 100, 102, 1, 0, 0, 0, 101, 96, 1, 0, 0, 0, 101, 102, 1, 0, 0, 0, 102, 111, 1, 0, 0, 0, 103, 104,
    5, 14, 0, 0, 104, 111, 3, 18, 9, 0, 105, 107, 5, 15, 0, 0, 106, 108, 3, 18, 9, 0, 107, 106, 1, 0, 0, 0, 107,
    108, 1, 0, 0, 0, 108, 111, 1, 0, 0, 0, 109, 111, 3, 20, 10, 0, 110, 82, 1, 0, 0, 0, 110, 85, 1, 0, 0, 0,
    110, 91, 1, 0, 0, 0, 110, 103, 1, 0, 0, 0, 110, 105, 1, 0, 0, 0, 110, 109, 1, 0, 0, 0, 111, 17, 1, 0, 0, 0,
    112, 113, 6, 9, -1, 0, 113, 114, 5, 2, 0, 0, 114, 115, 3, 18, 9, 0, 115, 116, 5, 4, 0, 0, 116, 125, 1, 0, 0,
    0, 117, 118, 7, 0, 0, 0, 118, 125, 3, 18, 9, 9, 119, 125, 3, 20, 10, 0, 120, 125, 5, 28, 0, 0, 121, 125, 5,
    24, 0, 0, 122, 125, 5, 25, 0, 0, 123, 125, 5, 27, 0, 0, 124, 112, 1, 0, 0, 0, 124, 117, 1, 0, 0, 0, 124,
    119, 1, 0, 0, 0, 124, 120, 1, 0, 0, 0, 124, 121, 1, 0, 0, 0, 124, 122, 1, 0, 0, 0, 124, 123, 1, 0, 0, 0,
    125, 137, 1, 0, 0, 0, 126, 127, 10, 8, 0, 0, 127, 128, 7, 1, 0, 0, 128, 136, 3, 18, 9, 9, 129, 130, 10, 7,
    0, 0, 130, 131, 7, 2, 0, 0, 131, 136, 3, 18, 9, 8, 132, 133, 10, 6, 0, 0, 133, 134, 7, 3, 0, 0, 134, 136, 3,
    18, 9, 7, 135, 126, 1, 0, 0, 0, 135, 129, 1, 0, 0, 0, 135, 132, 1, 0, 0, 0, 136, 139, 1, 0, 0, 0, 137, 135,
    1, 0, 0, 0, 137, 138, 1, 0, 0, 0, 138, 19, 1, 0, 0, 0, 139, 137, 1, 0, 0, 0, 140, 141, 5, 28, 0, 0, 141,
    150, 5, 2, 0, 0, 142, 147, 3, 18, 9, 0, 143, 144, 5, 3, 0, 0, 144, 146, 3, 18, 9, 0, 145, 143, 1, 0, 0, 0,
    146, 149, 1, 0, 0, 0, 147, 145, 1, 0, 0, 0, 147, 148, 1, 0, 0, 0, 148, 151, 1, 0, 0, 0, 149, 147, 1, 0, 0,
    0, 150, 142, 1, 0, 0, 0, 150, 151, 1, 0, 0, 0, 151, 152, 1, 0, 0, 0, 152, 153, 5, 4, 0, 0, 153, 21, 1, 0, 0,
    0, 15, 25, 39, 42, 47, 65, 71, 80, 101, 107, 110, 124, 135, 137, 147, 150]

end NimbleLang.Grammar
